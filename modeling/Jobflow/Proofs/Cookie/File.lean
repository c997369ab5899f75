import Jobflow.Cookie.Basic
import Jobflow.Proofs.Json.Range
import Jobflow.Proofs.Json.Records

/-!
The text of a cookie file. Every jar is read back from the text that is written for it, with
each expiry as its text is read; whatever else the cookies have is read back as it was.
-/

namespace Jobflow.Cookie

open Jobflow.Json
open Jobflow.Decimal (Binary64)

/-! ### What a file can hold -/

/-- An expiry of the cookie is a finite number. -/
def Cookie.IsFinite (c : Cookie) : Prop := ∀ x, c.expires = some x → x.IsFinite

/-- The cookie as it is read back from a file. -/
def Cookie.reread (c : Cookie) : Cookie := { c with expires := c.expires.map Json.reread }

def Jar.IsFinite (jar : Jar) : Prop := ∀ c ∈ jar.cookies, c.IsFinite

def Jar.reread (jar : Jar) : Jar := ⟨jar.cookies.map Cookie.reread⟩

/-! ### Reading what was written -/

section
variable {c : Cookie} {jar : Jar}

theorem mapNumbers_cookie (c : Cookie) :
    c.toValue.mapNumbers Number.reread = c.reread.toValue := by
  obtain ⟨name, value, domain, path, expires, httpOnly, secure, sameSite⟩ := c
  cases domain <;> cases path <;> cases expires <;> cases sameSite <;> rfl

theorem mapNumbers_jar (jar : Jar) :
    jar.toValue.mapNumbers Number.reread = jar.reread.toValue := by
  have hcookies : ∀ cookies : List Cookie,
      Value.mapItems Number.reread (cookies.map Cookie.toValue) =
        (cookies.map Cookie.reread).map Cookie.toValue := by
    intro cookies
    induction cookies with
    | nil => rfl
    | cons c rest ih =>
      rw [List.map_cons, Value.mapItems, mapNumbers_cookie, ih]
      rfl
  simp only [Jar.toValue, Value.mapNumbers, Value.mapMembers, hcookies, Jar.reread]

theorem readsAs_cookie (h : c.IsFinite) : c.toValue.ReadsAs Number.reread := by
  obtain ⟨name, value, domain, path, expires, httpOnly, secure, sameSite⟩ := c
  have hexpires : (realValue? expires).ReadsAs Number.reread := by
    cases expires with
    | none => trivial
    | some x => exact (reread_spec (h x rfl)).1
  cases domain <;> cases path <;> cases sameSite <;>
    exact ⟨trivial, trivial, trivial, trivial, hexpires, trivial, trivial, trivial, trivial⟩

theorem readsAs_jar (h : jar.IsFinite) : jar.toValue.ReadsAs Number.reread := by
  have hcookies : ∀ cookies : List Cookie, (∀ c ∈ cookies, c.IsFinite) →
      Value.AllReadAs Number.reread (cookies.map Cookie.toValue) := by
    intro cookies hall
    induction cookies with
    | nil => trivial
    | cons c rest ih =>
      exact ⟨readsAs_cookie (hall c List.mem_cons_self),
        ih fun other hother => hall other (List.mem_cons_of_mem c hother)⟩
  exact ⟨hcookies jar.cookies h, trivial⟩

theorem read_cookie (c : Cookie) (depth : Nat) :
    Cookie.read ⟨.text, depth + 2⟩ (.ofValue c.toValue) = .ok c := by
  obtain ⟨name, value, domain, path, expires, httpOnly, secure, sameSite⟩ := c
  cases domain <;> cases path <;> cases expires <;> cases sameSite <;> rfl

theorem readItems_cookies (cookies : List Cookie) (depth : Nat) :
    readItems Cookie.read ⟨.text, depth + 2⟩ (Document.ofItems (cookies.map Cookie.toValue)) =
      .ok cookies := by
  induction cookies with
  | nil => rfl
  | cons c rest ih =>
    simp only [List.map_cons, Document.ofItems, readItems, read_cookie, ih]
    rfl

theorem read_jar (jar : Jar) (depth : Nat) :
    Jar.read ⟨.text, depth + 4⟩ (.ofValue jar.toValue) = .ok jar := by
  simp [Jar.read, Jar.toValue, Document.ofValue, Document.ofMembers, Record.read,
    Record.readMembers, Record.find?, field, enter_text, malformed, readList, readItems_cookies,
    Stop.readList, Stop.readObject]

/-- The jar is read back from the text that is written for it, its expiries as their texts are
read. -/
theorem parseJar_pretty (h : jar.IsFinite) : parseJar jar.toValue.pretty = .ok jar.reread := by
  rw [parseJar, parseAs_pretty (readsAs_jar h), mapNumbers_jar]
  exact read_jar jar.reread _

end

/-! ### Writing what was read -/

theorem forall_inRange_of_allInRange {docs : List Document} (h : Document.AllInRange docs) :
    ∀ doc ∈ docs, doc.InRange := by
  induction docs with
  | nil => nofun
  | cons doc rest ih => exact List.forall_mem_cons.mpr ⟨h.1, ih h.2⟩

theorem forall_inRange_of_membersInRange
    {members : List (Except SyntaxError String × Document)} (h : Document.MembersInRange members) :
    ∀ member ∈ members, member.2.InRange := by
  induction members with
  | nil => nofun
  | cons member rest ih => exact List.forall_mem_cons.mpr ⟨h.1, ih h.2⟩

theorem hereditary_inRange : Hereditary Document.InRange :=
  ⟨forall_inRange_of_allInRange, forall_inRange_of_membersInRange⟩

theorem isFinite_of_readReal {site : Site} {doc : Document} {x : Binary64} (hdoc : doc.InRange)
    (h : readReal site doc = .ok x) : x.IsFinite := by
  unfold readReal at h
  split at h
  · obtain rfl := Except.ok.inj h
    exact Binary64.isFinite_ofInt _
  · obtain rfl := Except.ok.inj h
    exact hdoc
  · obtain ⟨found, -, hwrong⟩ := bind_eq_ok_iff.mp h
    cases hwrong

theorem isFinite_of_readCookie {site : Site} {doc : Document} {c : Cookie} (hdoc : doc.InRange)
    (h : Cookie.read site doc = .ok c) : c.IsFinite := by
  obtain ⟨draft, hdraft, hfinish⟩ := Record.draft_of_read hereditary_inRange
    (P := fun d : Cookie.Draft => ∀ x, d.expires.join = some x → x.IsFinite) hdoc h nofun (by
      simp only [List.forall_mem_cons, List.not_mem_nil, false_implies, implies_true, and_true]
      refine ⟨keeps_field fun _ ha hd => hd, keeps_field fun _ ha hd => hd,
        keeps_field fun _ ha hd => hd, keeps_field fun _ ha hd => hd, keeps_field ?_,
        keeps_field fun _ ha hd => hd, keeps_field fun _ ha hd => hd, keeps_field fun _ ha hd => hd⟩
      rintro site doc found draft hinner hread - x rfl
      unfold readOption at hread
      split at hread
      · cases hread
      · cases hfound : readReal site doc with
        | error e => simp [hfound, Except.map] at hread
        | ok y =>
          obtain rfl : y = x := by simpa [hfound, Except.map] using hread
          exact isFinite_of_readReal hinner hfound)
  obtain ⟨name, -, hfinish⟩ := bind_eq_ok_iff.mp hfinish
  obtain ⟨value, -, hfinish⟩ := bind_eq_ok_iff.mp hfinish
  obtain rfl := Except.ok.inj hfinish
  exact hdraft

/-- The expiries of a jar that a text holds are finite. -/
theorem isFinite_of_parseJar {text : String} {jar : Jar} (h : parseJar text = .ok jar) :
    jar.IsFinite := by
  unfold parseJar parseAs at h
  obtain ⟨found, hfound, h⟩ := bind_eq_ok_iff.mp h
  have hjar : found = jar := by
    split at h
    · cases h
    · exact Except.ok.inj h
  subst hjar
  obtain ⟨draft, hdraft, hfinish⟩ := Record.draft_of_read hereditary_inRange
    (P := fun d : Option (List Cookie) => ∀ c ∈ d.getD [], c.IsFinite) (inRange_document text)
    hfound nofun (by
      simp only [List.forall_mem_cons, List.not_mem_nil, false_implies, implies_true, and_true]
      refine keeps_field fun hinner ha _ c hc => ?_
      obtain ⟨_, _, hcookie, hread⟩ := read_of_mem_readList hereditary_inRange hinner ha c hc
      exact isFinite_of_readCookie hcookie hread)
  obtain rfl := Except.ok.inj hfinish
  exact hdraft

end Jobflow.Cookie
