import StateEngine.Text.Camel

/-!
# Joining words

A separator ends the word before it and lets the next one start with a capital, whatever stands before. So a text
with a separator in it is in camel case what its two sides are, one after the other, and it does not matter how many
separators there are in one place, nor which.

* `camelChars_append_cons`: **a separator parts a text in two**, whether a word is still to start or not.
* `camelized_append_separator`, `camelized_append_gap`: the same of texts, with one separator and with several.
* `camelized_word`: a word gets a capital.
* `camelized_joins`: **parts that are joined by separators are joined in camel case**.
-/

namespace StateEngine

variable {c : Char} {gap trail : String}

/-! ## A text in two -/

/-- **A separator parts a text in two**: what comes after it is read as at the start. -/
theorem camelChars_append_cons (h : isSeparator c = true) (initial : Bool) (before after : List Char) :
    camelChars initial (before ++ c :: after) = camelChars initial before ++ camelChars true after := by
  -- each character of `before` settles whether a word is to start after it, so all starts are needed at once
  induction before generalizing initial with
  | nil => simp [camelChars, h]
  | cons d before ih =>
    rw [List.cons_append, camelChars, camelChars]
    split
    · exact ih true
    · split
      · rw [ih false, List.append_assoc]
      · rw [ih false, List.cons_append]

/-- At the start, separators do not count. -/
theorem camelChars_append_of_separators {separators : List Char} (h : ∀ d ∈ separators, isSeparator d = true)
    (chars : List Char) : camelChars true (separators ++ chars) = camelChars true chars := by
  induction separators with
  | nil => rfl
  | cons d separators ih =>
    obtain ⟨hd, hseparators⟩ := List.forall_mem_cons.1 h
    rw [List.cons_append, camelChars, if_pos hd, ih hseparators]

/-- Letters inside of a word stay as they are. -/
theorem camelChars_false_of_letters {letters : List Char} (h : ∀ d ∈ letters, isSeparator d = false) :
    camelChars false letters = letters := by
  induction letters with
  | nil => rfl
  | cons d letters ih =>
    obtain ⟨hd, hletters⟩ := List.forall_mem_cons.1 h
    simp [camelChars, hd, ih hletters]

@[simp] theorem toList_camelized (s : String) : (camelized s).toList = camelChars true s.toList :=
  String.toList_ofList

@[simp] theorem camelized_empty : camelized "" = "" := rfl

theorem camelized_append_separator (h : isSeparator c = true) (s t : String) :
    camelized (s ++ String.singleton c ++ t) = camelized s ++ camelized t := by
  have hchars : (s ++ String.singleton c ++ t).toList = s.toList ++ c :: t.toList := by simp
  rw [← String.toList_inj, toList_camelized, hchars, camelChars_append_cons h, String.toList_append,
    toList_camelized, toList_camelized]

/-- **A word gets a capital**, and is not changed otherwise. -/
theorem camelized_word {letters : List Char} (h : ∀ d ∈ c :: letters, isSeparator d = false) :
    camelized (String.ofList (c :: letters)) = String.ofList (upperChars c ++ letters) := by
  obtain ⟨hc, hletters⟩ := List.forall_mem_cons.1 h
  rw [camelized, String.toList_ofList, camelChars, hc, camelChars_false_of_letters hletters]
  rfl

/-! ## Gaps -/

/-- Whether a text has separators only. -/
def IsGap (s : String) : Prop := ∀ c ∈ s.toList, isSeparator c = true

instance (s : String) : Decidable (IsGap s) := decidable_of_iff (s.toList.all isSeparator = true) List.all_eq_true

/-- A gap is empty, or it has a first separator and a gap after that. -/
theorem IsGap.eq_empty_or (h : IsGap gap) :
    gap = "" ∨ ∃ c rest, isSeparator c = true ∧ IsGap rest ∧ gap = String.singleton c ++ rest := by
  unfold IsGap at h
  cases hchars : gap.toList with
  | nil => exact .inl (String.toList_eq_nil_iff.1 hchars)
  | cons c chars =>
    rw [hchars, List.forall_mem_cons] at h
    refine .inr ⟨c, String.ofList chars, h.1, by simpa [IsGap] using h.2, ?_⟩
    rw [← String.toList_inj, hchars]
    simp

/-- Separators before a text do not count. -/
theorem camelized_gap_append (h : IsGap gap) (s : String) : camelized (gap ++ s) = camelized s := by
  rw [← String.toList_inj, toList_camelized, String.toList_append, camelChars_append_of_separators h,
    toList_camelized]

/-- **Several separators part a text in two**, just as one does. -/
theorem camelized_append_gap (h : IsGap gap) (hne : gap ≠ "") (s t : String) :
    camelized (s ++ gap ++ t) = camelized s ++ camelized t := by
  obtain hempty | ⟨c, rest, hc, hrest, rfl⟩ := h.eq_empty_or
  · exact absurd hempty hne
  · have hfirst : s ++ (String.singleton c ++ rest) ++ t = s ++ String.singleton c ++ (rest ++ t) := by
      simp only [String.append_assoc]
    rw [hfirst, camelized_append_separator hc, camelized_gap_append hrest]

/-- Separators after a text do not count. -/
theorem camelized_append_trail (h : IsGap trail) (s : String) : camelized (s ++ trail) = camelized s := by
  by_cases hempty : trail = ""
  · rw [hempty, String.append_empty]
  · have hparted := camelized_append_gap h hempty s ""
    rwa [String.append_empty, camelized_empty, String.append_empty] at hparted

/-! ## Texts in parts -/

/-- **A text in parts**: its parts are there in order, with separators around them, and with at least one between a
part and the next. -/
inductive Joins : List String → String → Prop
  | none {gap : String} (hgap : IsGap gap) : Joins [] gap
  | last {lead trail : String} (part : String) (hlead : IsGap lead) (htrail : IsGap trail) :
      Joins [part] (lead ++ part ++ trail)
  | more {lead gap next text : String} {parts : List String} (part : String) (hlead : IsGap lead)
      (hgap : IsGap gap) (hne : gap ≠ "") (hrest : Joins (next :: parts) text) :
      Joins (part :: next :: parts) (lead ++ part ++ gap ++ text)

theorem Joins.camelized_eq {parts : List String} {text : String} (h : Joins parts text) :
    camelized text = String.join (parts.map camelized) := by
  induction h with
  | none hgap =>
    have hblank := camelized_append_trail hgap ""
    rwa [String.empty_append] at hblank
  | last part hlead htrail =>
    rw [camelized_append_trail htrail, camelized_gap_append hlead]
    simp
  | more part hlead hgap hne _ ih =>
    rw [camelized_append_gap hgap hne, camelized_gap_append hlead, List.map_cons, String.join_cons, ih]

/-- **Camel case joins what separators part.** A text with a separator somewhere in it is in camel case what is
before it followed by what is after it, both in camel case. So a text in parts is in camel case just its parts, one
after the other, and a part that is a word is the word with a capital. -/
theorem camelized_joins :
    (∀ (a b : String) (c : Char), c = '.' ∨ c = '-' ∨ c = '_' ∨ isSpace c = true →
      camelized (a ++ String.singleton c ++ b) = camelized a ++ camelized b) ∧
    (∀ parts text, Joins parts text → camelized text = String.join (parts.map camelized)) ∧
    ∀ (c : Char) (letters : List Char), (∀ d ∈ c :: letters, isSeparator d = false) →
      camelized (String.ofList (c :: letters)) = String.ofList (upperChars c ++ letters) := by
  refine ⟨fun a b c hc => camelized_append_separator ?_ a b, fun parts text h => h.camelized_eq,
    fun c letters h => camelized_word h⟩
  simpa [isSeparator, or_assoc] using hc

/-- The parts of an address: one of them is empty, one starts with a letter that is two in upper case, and one has a
separator inside. -/
theorem camelized_joins_street :
    (isSpace '\u3000' = true ∧
      camelized ("_groß" ++ String.singleton '\u3000' ++ "ßtraße") = camelized "_groß" ++ camelized "ßtraße") ∧
    (Joins ["straße", "", "ßtill-ort"] "_straße. -ßtill-ort_" ∧
      camelized "_straße. -ßtill-ort_" = "StraßeSStillOrt") ∧
    (∀ d ∈ ['ß', 't', 'é'], isSeparator d = false) ∧
      camelized (String.ofList ['ß', 't', 'é']) = String.ofList ['S', 'S', 't', 'é'] := by
  obtain ⟨hseparator, hparts, hword⟩ := camelized_joins
  have hlast : Joins ["ßtill-ort"] ("" ++ "ßtill-ort" ++ "_") := .last _ (by decide) (by decide)
  have hempty : Joins ["", "ßtill-ort"] ("" ++ "" ++ " -" ++ "ßtill-ort_") :=
    .more _ (by decide) (by decide) (by decide) hlast
  have hstreet : Joins ["straße", "", "ßtill-ort"] ("_" ++ "straße" ++ "." ++ " -ßtill-ort_") :=
    .more _ (by decide) (by decide) (by decide) hempty
  have hletters : ∀ d ∈ ['ß', 't', 'é'], isSeparator d = false := by
    simp only [List.forall_mem_cons, List.not_mem_nil, false_imp_iff, implies_true, and_true]
    decide
  exact ⟨⟨by decide, hseparator _ _ _ (by decide)⟩, ⟨hstreet, (hparts _ _ hstreet).trans (by decide)⟩,
    hletters, hword _ _ hletters⟩

end StateEngine
