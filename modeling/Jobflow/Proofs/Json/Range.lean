import Jobflow.Proofs.Json.Reals
import Jobflow.Proofs.Success

/-!
The whole numbers of a value that was read from a text fit 64 bits, and its doubles are finite.
The bounds are established where a literal is turned into a number and kept by everything that
puts documents and values together.
-/

namespace Jobflow.Json

mutual

/-- Every whole number in the value is below the bound of 64 bits. -/
def Value.InRange : Value → Prop
  | .number (.whole n) => n ≤ Text.maxU64
  | .array items => Value.AllInRange items
  | .object members => Value.MembersInRange members
  | _ => True

def Value.AllInRange : List Value → Prop
  | [] => True
  | value :: rest => value.InRange ∧ Value.AllInRange rest

def Value.MembersInRange : List (String × Value) → Prop
  | [] => True
  | (_, value) :: rest => value.InRange ∧ Value.MembersInRange rest

end

mutual

/-- Every whole number that a document writes is below the bound of 64 bits, and every double is
finite. -/
def Document.InRange : Document → Prop
  | .number (.ok (.whole n)) => n ≤ Text.maxU64
  | .number (.ok (.real x)) => x.IsFinite
  | .array items _ => Document.AllInRange items
  | .object members _ => Document.MembersInRange members
  | _ => True

def Document.AllInRange : List Document → Prop
  | [] => True
  | item :: rest => item.InRange ∧ Document.AllInRange rest

def Document.MembersInRange : List (Except SyntaxError String × Document) → Prop
  | [] => True
  | (_, value) :: rest => value.InRange ∧ Document.MembersInRange rest

end

/-! ### Members and items -/

theorem Value.inRange_of_find? {members : Dict Value} (h : Value.MembersInRange members)
    {name : String} {value : Value} (hfind : Dict.find? name members = some value) :
    value.InRange := by
  induction members with
  | nil => simp [Dict.find?] at hfind
  | cons member rest ih =>
    obtain ⟨k, v⟩ := member
    rw [Dict.find?] at hfind
    split at hfind
    · obtain rfl := Option.some.inj hfind
      exact h.1
    · exact ih h.2 hfind

theorem Value.inRange_of_mem {items : List Value} (h : Value.AllInRange items) {value : Value}
    (hmem : value ∈ items) : value.InRange := by
  induction items with
  | nil => simp at hmem
  | cons item rest ih =>
    rcases List.mem_cons.mp hmem with rfl | hrest
    · exact h.1
    · exact ih h.2 hrest

private theorem membersInRange_insert {d : Dict Value} (h : Value.MembersInRange d)
    (name : String) {value : Value} (hvalue : value.InRange) :
    Value.MembersInRange (Dict.insert name value d) := by
  induction d with
  | nil => exact ⟨hvalue, trivial⟩
  | cons member rest ih =>
    obtain ⟨k, v⟩ := member
    rw [Dict.insert]
    split
    · exact ⟨hvalue, h⟩
    · split
      · exact ⟨hvalue, h.2⟩
      · exact ⟨h.1, ih h.2⟩

private theorem membersInRange_ofList {bindings : List (String × Value)}
    (h : Value.MembersInRange bindings) : Value.MembersInRange (Dict.ofList bindings) := by
  have haux : ∀ d : Dict Value, Value.MembersInRange d → Value.MembersInRange
      (bindings.foldl (fun d binding => Dict.insert binding.1 binding.2 d) d) := by
    induction bindings with
    | nil => exact fun d hd => hd
    | cons binding rest ih =>
      exact fun d hd => ih h.2 _ (membersInRange_insert hd binding.1 h.1)
  exact haux [] trivial

/-! ### Literals -/

theorem Literal.number_le {lit : Literal} {n : Int} (h : lit.number = .ok (.whole n)) :
    n ≤ Text.maxU64 := by
  unfold Literal.number at h
  dsimp only at h
  split at h
  · next hfits =>
    split at h
    · obtain rfl : (Text.decimalValue lit.whole : Int) = n := by simpa using h
      exact_mod_cast hfits.2.2
    · split at h
      · simp at h
      · obtain rfl : -(Text.decimalValue lit.whole : Int) = n := by simpa using h
        omega
  · obtain ⟨y, hy, -⟩ := isFinite_real h
    cases hy

/-! ### Scanning -/

private theorem inRange_scanNumber (cs : List Char) : (scanNumber cs).found.InRange := by
  unfold scanNumber
  split
  · next lit rest _ =>
    rcases hnumber : lit.number with e | n | x
    · trivial
    · exact Literal.number_le hnumber
    · exact Literal.isFinite_number hnumber
  · trivial

private theorem inRange_scanWord (word : List Char) (value : Document) (h : value.InRange)
    (rest : List Char) : (scanWord word value rest).found.InRange := by
  unfold scanWord
  split
  · exact h
  · trivial

/-- Whatever is scanned is in range, with any fuel. -/
private theorem inRange_scan (fuel : Nat) :
    (∀ cs, (scanValue fuel cs).found.InRange) ∧
    (∀ cs, Document.AllInRange (scanItems fuel cs).found.1) ∧
    (∀ cs, Document.MembersInRange (scanMembers fuel cs).found.1) := by
  induction fuel with
  | zero => exact ⟨fun _ => trivial, fun _ => trivial, fun _ => trivial⟩
  | succ fuel ih =>
    obtain ⟨hvalue, hitems, hmembers⟩ := ih
    -- each scanner only puts together what the three have found with less fuel
    refine ⟨?_, ?_, ?_⟩ <;> intro cs
    · rw [scanValue]
      dsimp only
      repeat' split
      any_goals trivial
      · exact hitems _
      · exact hmembers _
      · exact inRange_scanNumber _
      · exact inRange_scanWord _ .null trivial _
      · exact inRange_scanWord _ (.bool true) trivial _
      · exact inRange_scanWord _ (.bool false) trivial _
    · rw [scanItems]
      dsimp only
      repeat' split
      all_goals first
        | exact ⟨hvalue _, trivial⟩
        | exact ⟨hvalue _, hitems _⟩
    · rw [scanMembers.eq_def]
      dsimp only
      repeat' split
      all_goals first
        | trivial
        | exact ⟨hvalue _, trivial⟩
        | exact ⟨hvalue _, hmembers _⟩

theorem inRange_document (text : String) : (scan text).document.InRange := by
  unfold scan
  dsimp only
  split <;> exact (inRange_scan _).1 _

/-! ### Reading -/

mutual

private theorem inRange_toValue {depth : Nat} {doc : Document} {value : Value}
    (h : doc.InRange) (hvalue : doc.toValue depth = .ok value) : value.InRange := by
  cases doc with
  | null => rw [Document.toValue] at hvalue; cases hvalue; trivial
  | bool b => rw [Document.toValue] at hvalue; cases hvalue; trivial
  | number n =>
    rcases n with e | n | x
    · cases hvalue
    · rw [Document.toValue] at hvalue; cases hvalue; exact h
    · rw [Document.toValue] at hvalue; cases hvalue; trivial
  | string s =>
    cases s with
    | error e => cases hvalue
    | ok s => rw [Document.toValue] at hvalue; cases hvalue; trivial
  | broken fault => cases hvalue
  | array items stop =>
    rw [Document.toValue] at hvalue
    simp only [bind_eq_ok_iff, pure_eq_ok_iff] at hvalue
    obtain ⟨below, _, values, hvalues, _, _, rfl⟩ := hvalue
    exact inRange_toItems h hvalues
  | object members stop =>
    rw [Document.toValue] at hvalue
    simp only [bind_eq_ok_iff, pure_eq_ok_iff] at hvalue
    obtain ⟨below, _, bindings, hbindings, _, _, rfl⟩ := hvalue
    exact membersInRange_ofList (inRange_toMembers h hbindings)

private theorem inRange_toItems {depth : Nat} {items : List Document} {values : List Value}
    (h : Document.AllInRange items) (hvalues : Document.toItems depth items = .ok values) :
    Value.AllInRange values := by
  cases items with
  | nil => rw [Document.toItems] at hvalues; cases hvalues; trivial
  | cons item rest =>
    rw [Document.toItems] at hvalues
    simp only [bind_eq_ok_iff, pure_eq_ok_iff] at hvalues
    obtain ⟨value, hvalue, values, hvalues, rfl⟩ := hvalues
    exact ⟨inRange_toValue h.1 hvalue, inRange_toItems h.2 hvalues⟩

private theorem inRange_toMembers {depth : Nat}
    {members : List (Except SyntaxError String × Document)} {bindings : List (String × Value)}
    (h : Document.MembersInRange members)
    (hbindings : Document.toMembers depth members = .ok bindings) :
    Value.MembersInRange bindings := by
  cases members with
  | nil => rw [Document.toMembers] at hbindings; cases hbindings; trivial
  | cons member rest =>
    obtain ⟨name, value⟩ := member
    rw [Document.toMembers] at hbindings
    simp only [bind_eq_ok_iff, pure_eq_ok_iff] at hbindings
    obtain ⟨name, _, value, hvalue, bindings, hbindings, rfl⟩ := hbindings
    exact ⟨inRange_toValue h.1 hvalue, inRange_toMembers h.2 hbindings⟩

end

/-- The whole numbers of a value that a text writes fit 64 bits. -/
theorem inRange_parse {text : String} {value : Value} (h : parse text = .ok value) :
    value.InRange := by
  simp only [parse, parseAs, bind_eq_ok_iff, malformed_eq_ok_iff] at h
  obtain ⟨found, hfound, hend⟩ := h
  split at hend
  · cases hend
  · obtain rfl : found = value := by simpa using hend
    exact inRange_toValue (inRange_document text) hfound

end Jobflow.Json
