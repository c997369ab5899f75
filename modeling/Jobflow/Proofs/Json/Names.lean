import Jobflow.Json.Read
import Jobflow.Proofs.Dict
import Jobflow.Proofs.Success
import Jobflow.Proofs.Text.Trimming

/-!
Documents up to the case of their names. Two documents differ in the case of names only when they
agree once all names are made small. Where the names of every object stay different from each other
then, no member is lost, and making names small may be done before or after a document is read.
-/

namespace Jobflow.Json

open Jobflow.Text (lower)

/-! ### Values -/

mutual

/-- The value with small letters for capitals in all names. -/
def Value.lowerNames : Value → Value
  | .array items => .array (Value.lowerItems items)
  | .object members => .object (Dict.ofList (Value.lowerMembers members))
  | value => value

def Value.lowerItems : List Value → List Value
  | [] => []
  | item :: rest => item.lowerNames :: Value.lowerItems rest

def Value.lowerMembers : List (String × Value) → List (String × Value)
  | [] => []
  | (name, value) :: rest => (lower name, value.lowerNames) :: Value.lowerMembers rest

end

mutual

/-- No object in the value has two names that differ in case only. -/
def Value.NamesApart : Value → Prop
  | .array items => Value.AllNamesApart items
  | .object members =>
    (members.map fun member => lower member.1).Nodup ∧ Value.MembersNamesApart members
  | _ => True

def Value.AllNamesApart : List Value → Prop
  | [] => True
  | item :: rest => item.NamesApart ∧ Value.AllNamesApart rest

def Value.MembersNamesApart : List (String × Value) → Prop
  | [] => True
  | (_, value) :: rest => value.NamesApart ∧ Value.MembersNamesApart rest

end

theorem Value.lowerItems_eq (items : List Value) :
    Value.lowerItems items = items.map Value.lowerNames := by
  induction items with
  | nil => rfl
  | cons item rest ih => rw [Value.lowerItems, ih, List.map_cons]

theorem Value.lowerMembers_eq (members : List (String × Value)) :
    Value.lowerMembers members =
      members.map fun member => (lower member.1, member.2.lowerNames) := by
  induction members with
  | nil => rfl
  | cons member rest ih => rw [Value.lowerMembers, ih, List.map_cons]

theorem Value.allNamesApart_iff {items : List Value} :
    Value.AllNamesApart items ↔ ∀ item ∈ items, item.NamesApart := by
  induction items with
  | nil => simp [Value.AllNamesApart]
  | cons item rest ih => rw [Value.AllNamesApart, ih, List.forall_mem_cons]

theorem Value.membersNamesApart_iff {members : List (String × Value)} :
    Value.MembersNamesApart members ↔ ∀ member ∈ members, member.2.NamesApart := by
  induction members with
  | nil => simp [Value.MembersNamesApart]
  | cons member rest ih => rw [Value.MembersNamesApart, ih, List.forall_mem_cons]

/-! ### Documents -/

mutual

/-- The document with small letters for capitals in all names. -/
def Document.lowerNames : Document → Document
  | .array items stop => .array (Document.lowerItems items) stop
  | .object members stop => .object (Document.lowerMembers members) stop
  | doc => doc

def Document.lowerItems : List Document → List Document
  | [] => []
  | item :: rest => item.lowerNames :: Document.lowerItems rest

def Document.lowerMembers :
    List (Except SyntaxError String × Document) → List (Except SyntaxError String × Document)
  | [] => []
  | (name, value) :: rest => (name.map lower, value.lowerNames) :: Document.lowerMembers rest

end

/-- The names of members, made small. Names without a value are left out. -/
def Document.smallNames (members : List (Except SyntaxError String × Document)) : List String :=
  members.filterMap fun member => (member.1.map lower).toOption

mutual

/-- No object in the document has two names that differ in case only. -/
def Document.NamesApart : Document → Prop
  | .array items _ => Document.AllNamesApart items
  | .object members _ =>
    (Document.smallNames members).Nodup ∧ Document.MembersNamesApart members
  | _ => True

def Document.AllNamesApart : List Document → Prop
  | [] => True
  | item :: rest => item.NamesApart ∧ Document.AllNamesApart rest

def Document.MembersNamesApart : List (Except SyntaxError String × Document) → Prop
  | [] => True
  | (_, value) :: rest => value.NamesApart ∧ Document.MembersNamesApart rest

end

theorem smallNames_lowerMembers (members : List (Except SyntaxError String × Document)) :
    Document.smallNames (Document.lowerMembers members) = Document.smallNames members := by
  induction members with
  | nil => rfl
  | cons member rest ih =>
    obtain ⟨name, value⟩ := member
    cases name with
    | error cause => exact ih
    | ok text => exact List.cons_eq_cons.mpr ⟨Text.lower_lower text, ih⟩

mutual

/-- Whether names are apart is seen from the document with small names. -/
theorem namesApart_lowerNames (doc : Document) : doc.lowerNames.NamesApart ↔ doc.NamesApart := by
  match doc with
  | .null | .bool _ | .number _ | .string _ | .broken _ => exact Iff.rfl
  | .array items _ => exact allNamesApart_lowerItems items
  | .object members _ =>
    rw [Document.lowerNames, Document.NamesApart, Document.NamesApart, smallNames_lowerMembers,
      membersNamesApart_lowerMembers]

theorem allNamesApart_lowerItems (items : List Document) :
    Document.AllNamesApart (Document.lowerItems items) ↔ Document.AllNamesApart items := by
  match items with
  | [] => exact Iff.rfl
  | item :: rest =>
    rw [Document.lowerItems, Document.AllNamesApart, Document.AllNamesApart, namesApart_lowerNames,
      allNamesApart_lowerItems]

theorem membersNamesApart_lowerMembers (members : List (Except SyntaxError String × Document)) :
    Document.MembersNamesApart (Document.lowerMembers members) ↔
      Document.MembersNamesApart members := by
  match members with
  | [] => exact Iff.rfl
  | (name, value) :: rest =>
    rw [Document.lowerMembers, Document.MembersNamesApart, Document.MembersNamesApart,
      namesApart_lowerNames, membersNamesApart_lowerMembers]

end

theorem smallNames_of_toMembers {depth : Nat}
    {members : List (Except SyntaxError String × Document)} {bindings : List (String × Value)}
    (h : Document.toMembers depth members = .ok bindings) :
    Document.smallNames members = bindings.map fun binding => lower binding.1 := by
  induction members generalizing bindings with
  | nil =>
    obtain rfl := Except.ok.inj h
    rfl
  | cons member rest ih =>
    obtain ⟨name, doc⟩ := member
    rw [Document.toMembers, bind_eq_ok_iff] at h
    obtain ⟨text, rfl, h⟩ := h
    obtain ⟨value, -, h⟩ := bind_eq_ok_iff.mp h
    obtain ⟨others, hothers, h⟩ := bind_eq_ok_iff.mp h
    obtain rfl := Except.ok.inj h
    rw [List.map_cons, ← ih hothers]
    rfl

theorem perm_ofList_of_apart {bindings : List (String × Value)}
    (h : (bindings.map fun binding => lower binding.1).Nodup) :
    (Dict.ofList bindings).Perm bindings := by
  refine Dict.perm_ofList (List.Nodup.of_map lower ?_)
  simpa only [List.map_map, Function.comp_def] using h

/-- Of members with names apart none is lost in a map when names are made small. -/
theorem ofList_lowerMembers {bindings : List (String × Value)}
    (h : (bindings.map fun binding => lower binding.1).Nodup) :
    Dict.ofList (Value.lowerMembers (Dict.ofList bindings)) =
      Dict.ofList (Value.lowerMembers bindings) := by
  have hperm := perm_ofList_of_apart h
  have hlower : (((Dict.ofList bindings).map fun binding =>
      (lower binding.1, binding.2.lowerNames)).map Prod.fst).Nodup := by
    simp only [List.map_map, Function.comp_def]
    exact (hperm.map _).nodup_iff.mpr h
  rw [Value.lowerMembers_eq, Value.lowerMembers_eq]
  exact Dict.ofList_perm hlower (hperm.map _)

mutual

/-- A document with small names is read as the value with small names. -/
theorem toValue_lowerNames (depth : Nat) (doc : Document) (h : doc.NamesApart) :
    doc.lowerNames.toValue depth = (doc.toValue depth).map Value.lowerNames := by
  match doc, h with
  | .null, _ | .bool _, _ | .broken _, _ => rfl
  | .number n, _ => cases n <;> rfl
  | .string s, _ => cases s <;> rfl
  | .array items stop, h =>
    simp only [Document.lowerNames, Document.toValue]
    cases Document.enter depth with
    | error cause => rfl
    | ok below =>
      simp only [ok_bind]
      rw [toItems_lowerItems below items h]
      cases Document.toItems below items with
      | error cause => rfl
      | ok values => cases stop.readList <;> rfl
  | .object members stop, h =>
    simp only [Document.lowerNames, Document.toValue]
    cases Document.enter depth with
    | error cause => rfl
    | ok below =>
      simp only [ok_bind]
      rw [toMembers_lowerMembers below members h.2]
      cases hmembers : Document.toMembers below members with
      | error cause => rfl
      | ok bindings =>
        cases stop.readObject with
        | error cause => rfl
        | ok _ =>
          refine congrArg (Except.ok ∘ Value.object) (ofList_lowerMembers ?_).symm
          rw [← smallNames_of_toMembers hmembers]
          exact h.1

theorem toItems_lowerItems (depth : Nat) (items : List Document)
    (h : Document.AllNamesApart items) : Document.toItems depth (Document.lowerItems items) =
      (Document.toItems depth items).map Value.lowerItems := by
  match items, h with
  | [], _ => rfl
  | item :: rest, h =>
    simp only [Document.lowerItems, Document.toItems]
    rw [toValue_lowerNames depth item h.1, toItems_lowerItems depth rest h.2]
    cases item.toValue depth with
    | error cause => rfl
    | ok value => cases Document.toItems depth rest <;> rfl

theorem toMembers_lowerMembers (depth : Nat) (members : List (Except SyntaxError String × Document))
    (h : Document.MembersNamesApart members) :
    Document.toMembers depth (Document.lowerMembers members) =
      (Document.toMembers depth members).map Value.lowerMembers := by
  match members, h with
  | [], _ => rfl
  | (name, doc) :: rest, h =>
    simp only [Document.lowerMembers, Document.toMembers]
    rw [toValue_lowerNames depth doc h.1, toMembers_lowerMembers depth rest h.2]
    cases name with
    | error cause => rfl
    | ok text =>
      cases doc.toValue depth with
      | error cause => rfl
      | ok value => cases Document.toMembers depth rest <;> rfl

end

theorem namesApart_ofList {bindings : List (String × Value)}
    (h : (bindings.map fun binding => lower binding.1).Nodup)
    (hbindings : Value.MembersNamesApart bindings) :
    (Value.object (Dict.ofList bindings)).NamesApart := by
  have hperm := perm_ofList_of_apart h
  refine ⟨((hperm.map _).nodup_iff).mpr h, Value.membersNamesApart_iff.mpr ?_⟩
  intro member hmember
  exact Value.membersNamesApart_iff.mp hbindings member (hperm.mem_iff.mp hmember)

mutual

/-- Names that are apart in a document are apart in its value. -/
theorem namesApart_of_toValue {depth : Nat} {doc : Document} (h : doc.NamesApart) {value : Value}
    (hvalue : doc.toValue depth = .ok value) : value.NamesApart := by
  match doc, h with
  | .null, _ | .bool _, _ =>
    obtain rfl := Except.ok.inj hvalue
    trivial
  | .broken _, _ => cases hvalue
  | .number n, _ =>
    obtain ⟨m, -, rfl⟩ := map_eq_ok_iff.mp hvalue
    trivial
  | .string s, _ =>
    obtain ⟨m, -, rfl⟩ := map_eq_ok_iff.mp hvalue
    trivial
  | .array items stop, h =>
    rw [Document.toValue, bind_eq_ok_iff] at hvalue
    obtain ⟨below, -, hvalue⟩ := hvalue
    obtain ⟨values, hvalues, hvalue⟩ := bind_eq_ok_iff.mp hvalue
    obtain ⟨_, -, hvalue⟩ := bind_eq_ok_iff.mp hvalue
    obtain rfl := Except.ok.inj hvalue
    exact allNamesApart_of_toItems h hvalues
  | .object members stop, h =>
    rw [Document.toValue, bind_eq_ok_iff] at hvalue
    obtain ⟨below, -, hvalue⟩ := hvalue
    obtain ⟨bindings, hbindings, hvalue⟩ := bind_eq_ok_iff.mp hvalue
    obtain ⟨_, -, hvalue⟩ := bind_eq_ok_iff.mp hvalue
    obtain rfl := Except.ok.inj hvalue
    exact namesApart_ofList (smallNames_of_toMembers hbindings ▸ h.1)
      (membersNamesApart_of_toMembers h.2 hbindings)

theorem allNamesApart_of_toItems {depth : Nat} {items : List Document}
    (h : Document.AllNamesApart items) {values : List Value}
    (hvalues : Document.toItems depth items = .ok values) : Value.AllNamesApart values := by
  match items, h with
  | [], _ =>
    obtain rfl := Except.ok.inj hvalues
    trivial
  | item :: rest, h =>
    rw [Document.toItems, bind_eq_ok_iff] at hvalues
    obtain ⟨value, hvalue, hvalues⟩ := hvalues
    obtain ⟨others, hothers, hvalues⟩ := bind_eq_ok_iff.mp hvalues
    obtain rfl := Except.ok.inj hvalues
    exact ⟨namesApart_of_toValue h.1 hvalue, allNamesApart_of_toItems h.2 hothers⟩

theorem membersNamesApart_of_toMembers {depth : Nat}
    {members : List (Except SyntaxError String × Document)} (h : Document.MembersNamesApart members)
    {bindings : List (String × Value)}
    (hbindings : Document.toMembers depth members = .ok bindings) :
    Value.MembersNamesApart bindings := by
  match members, h with
  | [], _ =>
    obtain rfl := Except.ok.inj hbindings
    trivial
  | (name, doc) :: rest, h =>
    rw [Document.toMembers, bind_eq_ok_iff] at hbindings
    obtain ⟨text, -, hbindings⟩ := hbindings
    obtain ⟨value, hvalue, hbindings⟩ := bind_eq_ok_iff.mp hbindings
    obtain ⟨others, hothers, hbindings⟩ := bind_eq_ok_iff.mp hbindings
    obtain rfl := Except.ok.inj hbindings
    exact ⟨namesApart_of_toValue h.1 hvalue, membersNamesApart_of_toMembers h.2 hothers⟩

end

/-! ### Texts -/

variable {text : String}

theorem namesApart_of_parse (h : (scan text).document.NamesApart) {value : Value}
    (hvalue : parse text = .ok value) : value.NamesApart := by
  rw [parse, parseAs, bind_eq_ok_iff] at hvalue
  obtain ⟨read, hread, hvalue⟩ := hvalue
  split at hvalue
  · cases hvalue
  · obtain rfl := Except.ok.inj hvalue
    exact namesApart_of_toValue h (malformed_eq_ok_iff.mp hread)

/-- What is read from a text, with small names, can be told from its document with small names. -/
theorem map_lowerNames_parse (h : (scan text).document.NamesApart) :
    (parse text).map Value.lowerNames = do
      let value ← malformed ((scan text).document.lowerNames.toValue depthLimit)
      if (scan text).hasTrailer then .error (.malformed .trailingCharacters) else return value := by
  rw [toValue_lowerNames depthLimit _ h, parse, parseAs]
  dsimp only
  cases (scan text).document.toValue depthLimit with
  | error cause => rfl
  | ok value => cases (scan text).hasTrailer <;> rfl

end Jobflow.Json
