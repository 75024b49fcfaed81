import StateEngine.History.Basic
import StateEngine.Proofs.Calendar
import StateEngine.Proofs.Text

/-!
# Stored histories

A history that is written as a text is read again as it was. Its names may be any strings, for what a text cannot
hold is escaped, and its instants any of the years 0 to 9999, leap days and those before 1970 among them: the digits
of a part of a timestamp stand for that part, a fraction of a second has as many of them as it needs, and dates lead
back to their days.

* `Timestamp.ofDigits_lastDigits`: digits and the number that they write.
* `Timestamp.fraction?_fractionChars`: the fraction of a second, which may have four widths.
* `Timestamp.ofText?_text`: **a timestamp is read from its text**.
* `History.ofJson?_toJson`: a history is read from its value.
* `history_restored`: **a history is read from its text**.
-/

namespace StateEngine

namespace Timestamp

variable {width n : Nat} {s rest : List Char}

/-! ## Digits -/

theorem digit_spec (n : Nat) :
    (Char.ofNat (48 + n % 10)).toNat = 48 + n % 10 ∧ (Char.ofNat (48 + n % 10)).isDigit = true := by
  have hdigits : ∀ d < 10, (Char.ofNat (48 + d)).toNat = 48 + d ∧ (Char.ofNat (48 + d)).isDigit = true := by decide
  exact hdigits (n % 10) (Nat.mod_lt n (by decide))

@[simp] theorem length_lastDigits (width n : Nat) : (lastDigits width n).length = width := by
  induction width generalizing n with
  | zero => rfl
  | succ width ih => rw [lastDigits, List.length_append, ih, List.length_singleton]

theorem lastDigits_isDigit (width n : Nat) : ∀ c ∈ lastDigits width n, c.isDigit = true := by
  induction width generalizing n with
  | zero => exact fun c hc => nomatch hc
  | succ width ih =>
    intro c hc
    rcases List.mem_append.1 hc with hc | hc
    · exact ih _ c hc
    · rw [List.mem_singleton.1 hc]
      exact (digit_spec n).2

/-- **Digits are read as the number that they write.** -/
theorem ofDigits_lastDigits (width n : Nat) : ofDigits (lastDigits width n) = n % 10 ^ width := by
  induction width generalizing n with
  | zero => simp [lastDigits, ofDigits, Nat.mod_one]
  | succ width ih =>
    have hlast : ofDigits (lastDigits width (n / 10) ++ [Char.ofNat (48 + n % 10)]) =
        ofDigits (lastDigits width (n / 10)) * 10 + n % 10 := by
      simp [ofDigits, (digit_spec n).1]
    rw [lastDigits, hlast, ih, Nat.pow_succ', Nat.mod_mul]
    omega

/-- A number of at most so many digits is read from the front of a text. -/
theorem digits?_lastDigits (h : n < 10 ^ width) : digits? width (lastDigits width n ++ rest) = some (n, rest) := by
  have hfront : (lastDigits width n ++ rest).take width = lastDigits width n := by
    rw [List.take_left' (length_lastDigits width n)]
  have hback : (lastDigits width n ++ rest).drop width = rest := by
    rw [List.drop_left' (length_lastDigits width n)]
  unfold digits?
  simp only [hfront, hback, length_lastDigits, ofDigits_lastDigits, Nat.mod_eq_of_lt h, true_and]
  rw [if_pos (List.all_eq_true.2 (lastDigits_isDigit width n))]

theorem skip?_cons (c : Char) (rest : List Char) : skip? c (c :: rest) = some rest := if_pos rfl

/-! ## Parts of a timestamp -/

/-- **A year of four digits** is read from the front of a text. -/
theorem year?_yearChars {year : Int} (hfirst : 0 ≤ year) (hlast : year ≤ 9999) :
    year? (yearChars year ++ rest) = some (year, rest) := by
  obtain ⟨n, rfl⟩ := Int.eq_ofNat_of_zero_le hfirst
  have hn : n < 10 ^ 4 := by omega
  have hchars : yearChars n = lastDigits 4 n := if_pos ⟨hfirst, hlast⟩
  -- the first character is a digit, and so no sign
  obtain ⟨c, more, hcons⟩ : ∃ c more, lastDigits 4 n = c :: more := ⟨_, _, rfl⟩
  have hdigit : c.isDigit = true := lastDigits_isDigit 4 n c (hcons ▸ List.mem_cons_self)
  have hread : year? (lastDigits 4 n ++ rest) =
      (digits? 4 (lastDigits 4 n ++ rest)).map fun read => ((read.1 : Int), read.2) := by
    rw [hcons, List.cons_append]
    unfold year?
    split
    · rename_i heq
      cases heq
      exact absurd hdigit (by decide)
    · rename_i heq
      cases heq
      exact absurd hdigit (by decide)
    · rfl
  rw [hchars, hread, digits?_lastDigits hn]
  rfl

/-- The digits of a fraction are read in nanoseconds. -/
theorem fraction?_lastDigits (hpos : 0 < width) (hle : width ≤ 9) (h : n < 10 ^ width) :
    fraction? ('.' :: (lastDigits width n ++ ['Z'])) = some (n * Nat.pow 10 (9 - width), ['Z']) := by
  have htake : (lastDigits width n ++ ['Z']).takeWhile Char.isDigit = lastDigits width n := by
    rw [List.takeWhile_append_of_pos (lastDigits_isDigit width n)]
    exact List.append_nil _
  have hdrop : (lastDigits width n ++ ['Z']).dropWhile Char.isDigit = ['Z'] := by
    rw [List.dropWhile_append_of_pos (lastDigits_isDigit width n)]
    rfl
  have hsome : ¬((lastDigits width n).isEmpty = true ∨ 9 < width) := by
    rw [List.isEmpty_iff, ← List.length_eq_zero_iff, length_lastDigits]
    omega
  simp only [fraction?, htake, hdrop, length_lastDigits, if_neg hsome, ofDigits_lastDigits, Nat.mod_eq_of_lt h]

/-- **The fraction of a second is exact**, with as few digits as it has. -/
theorem fraction?_fractionChars {nanos : Nat} (h : nanos < second) :
    fraction? (fractionChars nanos ++ ['Z']) = some (nanos, ['Z']) := by
  unfold second at h
  unfold fractionChars
  split_ifs with hzero hmillis hmicros
  · rw [hzero]
    rfl
  · rw [List.cons_append, fraction?_lastDigits (by decide) (by decide) (by omega)]
    simp
    omega
  · rw [List.cons_append, fraction?_lastDigits (by decide) (by decide) (by omega)]
    simp
    omega
  · rw [List.cons_append, fraction?_lastDigits (by decide) (by decide) (by omega)]
    simp

/-- The reader takes the dates of the calendar. -/
theorem isDate_iff (date : Date) : isDate date = true ↔ date.Valid := by
  rw [isDate, decide_eq_true_iff]
  exact ⟨fun h => h ▸ Date.ofDay_valid date.toDay, Date.Valid.ofDay_toDay⟩

/-! ## Timestamps -/

/-- **What the parts of a timestamp are read as**, if it is no leap second. -/
theorem ofChars?_parts {date : Date} {hour minute sec nanos : Nat} (hfirst : 0 ≤ date.year) (hlast : date.year ≤ 9999)
    (hdate : date.Valid) (hhour : hour < 24) (hminute : minute < 60) (hsec : sec < 60) (hnanos : nanos < second) :
    ofChars? (yearChars date.year ++ '-' :: (lastDigits 2 date.month ++ '-' :: (lastDigits 2 date.day ++
        'T' :: (lastDigits 2 hour ++ ':' :: (lastDigits 2 minute ++ ':' :: (lastDigits 2 sec ++
          (fractionChars nanos ++ ['Z']))))))) =
      of? (date.toDay * daySeconds + (hour * 3600 + minute * 60 + sec : Nat)) nanos := by
  have hisDate := (isDate_iff date).2 hdate
  have hmonth : date.month < 10 ^ 2 := Nat.lt_of_le_of_lt hdate.month_le (by decide)
  have hday : date.day < 10 ^ 2 := Nat.lt_of_le_of_lt (hdate.day_le.trans (Date.monthDays_le _ _)) (by decide)
  have hhourDigits : hour < 10 ^ 2 := by omega
  have hminuteDigits : minute < 10 ^ 2 := by omega
  have hsecDigits : sec < 10 ^ 2 := by omega
  have hleap : sec ≠ 60 := by omega
  unfold ofChars?
  simp only [year?_yearChars hfirst hlast, skip?_cons, digits?_lastDigits hmonth, digits?_lastDigits hday,
    digits?_lastDigits hhourDigits, digits?_lastDigits hminuteDigits, digits?_lastDigits hsecDigits,
    fraction?_fractionChars hnanos, Option.bind_eq_bind, Option.bind_some]
  rw [if_pos ⟨trivial, hisDate, hhour, hminute, by omega⟩]
  simp only [if_neg hleap, Nat.sub_zero, Nat.zero_mul, Nat.add_zero]

/-- A timestamp that is no leap second, by its date and time of day. -/
theorem of?_date (t : Timestamp) (hfirst : firstYear ≤ t.date.year) (hlast : t.date.year ≤ lastYear)
    (hnanos : t.nanos < second) :
    of? (t.date.toDay * daySeconds + (t.timeOfDay / 3600 * 3600 + t.timeOfDay / 60 % 60 * 60 + t.timeOfDay % 60 : Nat))
      t.nanos = some t := by
  have hseconds : t.date.toDay * daySeconds +
      (t.timeOfDay / 3600 * 3600 + t.timeOfDay / 60 % 60 * 60 + t.timeOfDay % 60 : Nat) = t.seconds := by
    rw [date, Date.toDay_ofDay, day]
    unfold timeOfDay daySeconds
    omega
  have hyear : ¬(t.date.year < firstYear ∨ lastYear < t.date.year) := by omega
  rw [hseconds, of?]
  exact (if_neg hyear).trans (if_pos (.inl hnanos))

/-- **A timestamp is read from its text**, in the years that are written without a sign. -/
theorem ofText?_text (t : Timestamp) (hfirst : 0 ≤ t.date.year) (hlast : t.date.year ≤ 9999)
    (hnanos : t.nanos < second) : ofText? t.text = some t := by
  have htime : t.timeOfDay < 86400 := by
    unfold timeOfDay daySeconds
    omega
  have hleap : ¬ second ≤ t.nanos := Nat.not_le.2 hnanos
  have hchars : t.chars = yearChars t.date.year ++ '-' :: (lastDigits 2 t.date.month ++
      '-' :: (lastDigits 2 t.date.day ++ 'T' :: (lastDigits 2 (t.timeOfDay / 3600) ++
        ':' :: (lastDigits 2 (t.timeOfDay / 60 % 60) ++ ':' :: (lastDigits 2 (t.timeOfDay % 60) ++
          (fractionChars t.nanos ++ ['Z'])))))) := by
    simp [chars, dateChars, timeChars, hleap]
  rw [ofText?, text, String.toList_ofList, hchars, ofChars?_parts hfirst hlast (Date.ofDay_valid t.day) (by omega)
    (Nat.mod_lt _ (by decide)) (Nat.mod_lt _ (by decide)) hnanos]
  exact of?_date t (hfirst.trans' (by decide)) (hlast.trans (by decide)) hnanos

end Timestamp

/-! ## Histories -/

theorem Entry.ofJson?_toJson {entry : Entry Timestamp} (h : Timestamp.ofText? entry.stamp.text = some entry.stamp) :
    Entry.ofJson? entry.toJson = some entry := by
  simp [ofJson?, toJson, Json.members?, Members.string?, List.lookup_cons, Json.string?, h]

/-- Steps that undo others, one by one, undo them all. -/
theorem mapM_map_of_undo {α β : Type} {f : α → β} {g : β → Option α} {l : List α} (h : ∀ a ∈ l, g (f a) = some a) :
    (l.map f).mapM g = some l := by
  induction l with
  | nil => rfl
  | cons a rest ih =>
    obtain ⟨ha, hrest⟩ := List.forall_mem_cons.1 h
    rw [List.map_cons, List.mapM_cons, ha, ih hrest]
    rfl

namespace History

variable {history : History Timestamp}

/-- **A history is read from its value**, if its stamps are read from their texts. -/
theorem ofJson?_toJson (h : ∀ entry ∈ history.entries, Timestamp.ofText? entry.stamp.text = some entry.stamp) :
    ofJson? history.toJson = some history := by
  have hentries := mapM_map_of_undo fun entry he => Entry.ofJson?_toJson (h entry he)
  simp [ofJson?, toJson, Json.members?, hentries]

theorem allPlain_entries (entries : List (Entry Timestamp)) : Json.AllPlain 1 (entries.map Entry.toJson) := by
  induction entries with
  | nil => exact trivial
  | cons entry rest ih =>
    have hentry : entry.toJson.Plain 1 :=
      ⟨by decide, by simp, trivial, trivial, trivial, trivial, trivial⟩
    exact ⟨hentry, ih⟩

theorem plain_toJson (history : History Timestamp) : history.toJson.Plain 3 :=
  ⟨by decide, by simp, ⟨by decide, allPlain_entries history.entries⟩, trivial⟩

end History

/-- **A history is read from its text as it was.** Whatever strings its names are, and in whatever order its instants
come: if those lie in the years 0 to 9999 and are no leap seconds, reading what was written gives the same entries in
the same order, with the same instants to the nanosecond. -/
theorem history_restored (history : History Timestamp)
    (h : ∀ entry ∈ history.entries,
      0 ≤ entry.stamp.date.year ∧ entry.stamp.date.year ≤ 9999 ∧ entry.stamp.nanos < Timestamp.second) :
    (Json.ofText? history.toJson.text).bind History.ofJson? = some history := by
  have hstamps : ∀ entry ∈ history.entries, Timestamp.ofText? entry.stamp.text = some entry.stamp := by
    intro entry he
    obtain ⟨hfirst, hlast, hnanos⟩ := h entry he
    exact entry.stamp.ofText?_text hfirst hlast hnanos
  rw [Json.ofText?_text (History.plain_toJson history) (by decide), Option.bind_some]
  exact History.ofJson?_toJson hstamps

namespace Ledger

/-- Four changes, the latest first: in the last second of the years, on a leap day, before 1970, and in the first
second of the years. Their fractions have all widths, and their names have to be escaped. -/
def history : History Timestamp := ⟨[
  ⟨"tick", "a \"b\" \\", "\x01\n\t/", ⟨253402300799, 999999999⟩⟩,
  ⟨"", "\x01\n\t/", "é\u2028", ⟨951782400, 1000⟩⟩,
  ⟨"tick", "é\u2028", "\x7f", ⟨-1, 500000000⟩⟩,
  ⟨"halt", "\x7f", "", ⟨-62167219200, 0⟩⟩]⟩

end Ledger

/-- The ledger is read from its text as it was. -/
theorem history_restored_ledger :
    (∀ entry ∈ Ledger.history.entries,
        0 ≤ entry.stamp.date.year ∧ entry.stamp.date.year ≤ 9999 ∧ entry.stamp.nanos < Timestamp.second) ∧
      Ledger.history.entries.map (fun entry => entry.stamp.text) =
        ["9999-12-31T23:59:59.999999999Z", "2000-02-29T00:00:00.000001Z", "1969-12-31T23:59:59.500Z",
          "0000-01-01T00:00:00Z"] ∧
      (Json.ofText? Ledger.history.toJson.text).bind History.ofJson? = some Ledger.history := by
  have hcommon : ∀ entry ∈ Ledger.history.entries,
      0 ≤ entry.stamp.date.year ∧ entry.stamp.date.year ≤ 9999 ∧ entry.stamp.nanos < Timestamp.second := by decide
  exact ⟨hcommon, by decide, history_restored Ledger.history hcommon⟩

end StateEngine
