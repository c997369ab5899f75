import Jobflow.Job.Route
import Jobflow.Proofs.Text.Trimming

/-!
Hosts in the form a route table has them. The form keeps every character that is neither a blank
nor a dot; it is its own form exactly when no blank stands right before the dots at the end of the
host it was made of, for the blanks go before the dots do.
-/

namespace Jobflow.Job

open Text (Trimmed dropEndWhile isBlankChar lowerChar trimChars)

/-- The characters of a host without the blanks around them and without the dots at their end. -/
def bareChars (cs : List Char) : List Char := dropEndWhile (· == '.') (trimChars cs)

theorem toList_normalHost (host : String) :
    (normalHost host).toList = (bareChars host.toList).map lowerChar := by
  simp [normalHost, bareChars]

theorem exists_dots (cs : List Char) :
    ∃ dots, trimChars cs = bareChars cs ++ dots ∧ ∀ c ∈ dots, c = '.' := by
  obtain ⟨dots, hdots, hall⟩ := Text.exists_dropEndWhile (· == '.') (trimChars cs)
  exact ⟨dots, hdots, fun c hc => beq_iff_eq.mp (hall c hc)⟩

theorem exists_bareChars (cs : List Char) :
    ∃ before dots after, cs = before ++ (bareChars cs ++ (dots ++ after)) ∧
      (∀ c ∈ before, isBlankChar c = true) ∧ (∀ c ∈ dots, c = '.') ∧
      ∀ c ∈ after, isBlankChar c = true := by
  obtain ⟨before, after, hcs, hbefore, hafter⟩ := Text.exists_trimChars cs
  obtain ⟨dots, hdots, hall⟩ := exists_dots cs
  refine ⟨before, dots, after, ?_, hbefore, hall, hafter⟩
  rw [← List.append_assoc (bareChars cs), ← hdots, ← hcs]

theorem bareChars_sublist (cs : List Char) : (bareChars cs).Sublist cs :=
  (Text.dropEndWhile_sublist ..).trans (Text.trimChars_sublist cs)

theorem mem_bareChars {c : Char} (hblank : isBlankChar c = false) (hdot : c ≠ '.')
    (cs : List Char) :
    c ∈ bareChars cs ↔ c ∈ cs := by
  refine ⟨fun hc => (bareChars_sublist cs).subset hc, fun hc => ?_⟩
  obtain ⟨before, dots, after, hcs, hbefore, hdots, hafter⟩ := exists_bareChars cs
  rw [hcs] at hc
  simp only [List.mem_append] at hc
  rcases hc with hc | hc | hc | hc
  · simp [hbefore c hc] at hblank
  · exact hc
  · exact absurd (hdots c hc) hdot
  · simp [hafter c hc] at hblank

/-- A character before the letters that is neither a blank nor a dot is in the form of a host if
it is in the host. -/
theorem mem_normalHost {c : Char} (hsmall : c.toNat < 65) (hblank : isBlankChar c = false)
    (hdot : c ≠ '.') {host : String} : c ∈ (normalHost host).toList ↔ c ∈ host.toList := by
  rw [toList_normalHost, List.mem_map, ← mem_bareChars hblank hdot host.toList]
  constructor
  · rintro ⟨d, hd, hlower⟩
    obtain rfl := (Text.lowerChar_eq_iff hsmall).mp hlower
    exact hd
  · exact fun hc => ⟨c, hc, (Text.lowerChar_eq_iff hsmall).mpr rfl⟩

theorem bareChars_lower (cs : List Char) :
    bareChars (cs.map lowerChar) = (bareChars cs).map lowerChar := by
  have hdot : ((· == '.') ∘ lowerChar) = (· == '.') := by
    funext c
    rw [Bool.eq_iff_iff]
    simpa using Text.lowerChar_eq_iff (by decide)
  rw [bareChars, Text.trimChars_lower, Text.dropEndWhile_map, hdot, bareChars]

/-! ### Steady hosts -/

/-- A blank stands right before the dots at the end of the host. -/
def BlankBeforeDots (host : String) : Prop :=
  ∃ front blank dots after, host.toList = front ++ blank :: (dots ++ after) ∧
    isBlankChar blank = true ∧ dots ≠ [] ∧ (∀ c ∈ dots, c = '.') ∧
    ∀ c ∈ after, isBlankChar c = true

theorem isBlankChar_dot : isBlankChar '.' = false := by decide

theorem last_bareChars {cs : List Char} {c : Char} (h : (bareChars cs).getLast? = some c) :
    c ≠ '.' := by
  simpa using Text.last_dropEndWhile h

theorem bareChars_eq_self {cs : List Char} (h : Trimmed cs)
    (hdot : ∀ c, cs.getLast? = some c → c ≠ '.') : bareChars cs = cs := by
  rw [bareChars, h.trimChars_eq]
  exact Text.dropEndWhile_eq_self (by simpa using hdot)

theorem bareChars_bareChars_iff (cs : List Char) :
    bareChars (bareChars cs) = bareChars cs ↔
      ∀ c, (bareChars cs).getLast? = some c → isBlankChar c = false := by
  constructor
  · intro hsame
    -- the blanks would go first, so none is at the end when nothing goes
    have hlength : (bareChars cs).length ≤ (trimChars (bareChars cs)).length := by
      conv => lhs; rw [← hsame]
      exact (Text.dropEndWhile_sublist ..).length_le
    have hkept : trimChars (bareChars cs) = bareChars cs :=
      (Text.trimChars_sublist _).eq_of_length_le hlength
    have htrimmed := Text.trimmed_trimChars (bareChars cs)
    rw [hkept] at htrimmed
    exact htrimmed.last
  · intro hlast
    refine bareChars_eq_self ⟨?_, hlast⟩ fun c => last_bareChars
    intro c hc
    obtain ⟨dots, hdots, -⟩ := exists_dots cs
    apply (Text.trimmed_trimChars cs).first c
    rw [hdots, List.head?_append, hc]
    rfl

theorem blankBeforeDots_of_last {host : String} {c : Char}
    (hc : (bareChars host.toList).getLast? = some c) (hblank : isBlankChar c = true) :
    BlankBeforeDots host := by
  obtain ⟨front, hfront⟩ := List.getLast?_eq_some_iff.mp hc
  obtain ⟨before, after, hhost, -, hafter⟩ := Text.exists_trimChars host.toList
  obtain ⟨dots, hdots, hall⟩ := exists_dots host.toList
  refine ⟨before ++ front, c, dots, after, ?_, hblank, ?_, hall, hafter⟩
  · rw [hhost, hdots, hfront]
    simp
  · rintro rfl
    rw [List.append_nil] at hdots
    have hlast := (Text.trimmed_trimChars host.toList).last c (hdots ▸ hc)
    simp [hlast] at hblank

/-- The form of a host that ends in dots: what stands before them, from the first character on that
is not blank. -/
theorem bareChars_append {before kept dots after : List Char}
    (hbefore : ∀ c ∈ before, isBlankChar c = true)
    (hfirst : ∀ c, kept.head? = some c → isBlankChar c = false)
    (hlast : ∀ c, kept.getLast? = some c → c ≠ '.') (hdots : ∀ c ∈ dots, c = '.') (hne : dots ≠ [])
    (hafter : ∀ c ∈ after, isBlankChar c = true) :
    bareChars (before ++ (kept ++ (dots ++ after))) = kept := by
  have htrimmed : Trimmed (kept ++ dots) := by
    constructor
    · intro c hc
      cases kept with
      | nil => exact hdots c (List.mem_of_head? hc) ▸ isBlankChar_dot
      | cons d rest => exact hfirst c hc
    · intro c hc
      rw [List.getLast?_append_of_ne_nil _ hne] at hc
      exact hdots c (List.mem_of_getLast? hc) ▸ isBlankChar_dot
  rw [bareChars, ← List.append_assoc kept, htrimmed.trimChars_append hbefore hafter (by simp [hne])]
  exact Text.dropEndWhile_append (by simpa using hlast) (by simpa using hdots)

theorem eq_of_last_dropWhile {front : List Char} {blank c : Char}
    (h : ((front ++ [blank]).dropWhile isBlankChar).getLast? = some c) : c = blank := by
  have hlast : (front ++ [blank]).getLast? = some c := by
    rw [← List.takeWhile_append_dropWhile (p := isBlankChar) (l := front ++ [blank]),
      List.getLast?_append, h]
    rfl
  simpa [eq_comm] using hlast

theorem bareChars_blank {front dots after : List Char} {blank : Char}
    (hblank : isBlankChar blank = true) (hne : dots ≠ []) (hdots : ∀ c ∈ dots, c = '.')
    (hafter : ∀ c ∈ after, isBlankChar c = true) :
    bareChars (front ++ blank :: (dots ++ after)) = (front ++ [blank]).dropWhile isBlankChar := by
  have htext : front ++ blank :: (dots ++ after) = (front ++ [blank]).takeWhile isBlankChar ++
      ((front ++ [blank]).dropWhile isBlankChar ++ (dots ++ after)) := by
    rw [← List.append_assoc, List.takeWhile_append_dropWhile, List.append_assoc]
    rfl
  rw [htext]
  apply bareChars_append (fun _ => List.mem_takeWhile_imp) _ _ hdots hne hafter
  · intro c hc
    simpa [hc] using List.head?_dropWhile_not isBlankChar (front ++ [blank])
  · rintro c hc rfl
    simp [eq_of_last_dropWhile hc ▸ isBlankChar_dot] at hblank

theorem last_of_blankBeforeDots {host : String} (h : BlankBeforeDots host)
    (hne : bareChars host.toList ≠ []) :
    ∃ c, (bareChars host.toList).getLast? = some c ∧ isBlankChar c = true := by
  obtain ⟨front, blank, dots, after, hhost, hblank, hdots, hall, hafter⟩ := h
  obtain ⟨c, hc⟩ := Option.isSome_iff_exists.mp (List.getLast?_isSome.mpr hne)
  refine ⟨c, hc, ?_⟩
  rw [hhost, bareChars_blank hblank hdots hall hafter] at hc
  exact eq_of_last_dropWhile hc ▸ hblank

/-- The form of a host is its own form unless a blank stands right before the dots at its end. -/
theorem normalHost_normalHost_iff {host : String} (hne : normalHost host ≠ "") :
    normalHost (normalHost host) = normalHost host ↔ ¬ BlankBeforeDots host := by
  have hbare : bareChars host.toList ≠ [] := by
    intro hnil
    apply hne
    rw [← String.toList_inj, toList_normalHost, hnil]
    rfl
  have hforms : normalHost (normalHost host) = normalHost host ↔
      bareChars (bareChars host.toList) = bareChars host.toList := by
    rw [← String.toList_inj, toList_normalHost, toList_normalHost, bareChars_lower, List.map_map]
    have hlower : lowerChar ∘ lowerChar = lowerChar := funext Text.lowerChar_lowerChar
    rw [hlower]
    refine ⟨fun hsame => (bareChars_sublist _).eq_of_length ?_, congrArg _⟩
    simpa using congrArg List.length hsame
  rw [hforms, bareChars_bareChars_iff]
  constructor
  · intro hlast hblank
    obtain ⟨c, hc, hc'⟩ := last_of_blankBeforeDots hblank hbare
    simp [hlast c hc] at hc'
  · intro hnone c hc
    by_contra hblank
    exact hnone (blankBeforeDots_of_last hc (eq_true_of_ne_false hblank))

end Jobflow.Job
