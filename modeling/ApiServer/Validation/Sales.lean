import ApiServer.Lib.Calendar
import ApiServer.Validation.IntField
import Mathlib.Data.List.GetD
import Mathlib.Tactic.IntervalCases

/-!
# The date range of the sales schema

`validate_date_string_fast` accepts the ISO 8601 texts of the days of the years 1900 to 2199. On such
texts `strtol` reads the year and `strcmp` is the order of the days, so the schema accepts exactly the
ranges it is meant to.
-/

namespace ApiServer
open Bytes Calendar

variable {field : FieldValidator} {err : ErrBuf}

/-! ## Date texts -/

theorem daysInMonth_eq {year month : Nat} (h : 1 ≤ month ∧ month ≤ 12) :
    daysInMonth year month = monthLength year month := by
  obtain ⟨hlow, hhigh⟩ := h
  unfold daysInMonth monthLength IsLeap
  interval_cases month <;> rfl

/-- A byte that is a digit, as the validator tests it and reads it. -/
theorem digit_checks : ∀ k < 10, let c := UInt8.ofNat (48 + k)
    (c == 0) = false ∧ (decide (c < 48) || decide (57 < c)) = false ∧ c.toNat - 48 = k := by
  decide

theorem exists_digit {c : UInt8} (h : (decide (c < 48) || decide (57 < c)) = false) :
    ∃ k < 10, c = .ofNat (48 + k) := by
  simp only [Bool.or_eq_false_iff, decide_eq_false_iff_not, UInt8.not_lt, UInt8.le_iff_toNat_le] at h
  obtain ⟨hlow, hhigh⟩ := h
  change 48 ≤ c.toNat at hlow
  change c.toNat ≤ 57 at hhigh
  refine ⟨c.toNat - 48, by omega, ?_⟩
  rw [Nat.add_sub_cancel' hlow, UInt8.ofNat_toNat]

/-- Digits at the places of the form `YYYY-MM-DD`. -/
def isoBytes (k : Nat → Nat) : Bytes :=
  [.ofNat (48 + k 0), .ofNat (48 + k 1), .ofNat (48 + k 2), .ofNat (48 + k 3), 45,
    .ofNat (48 + k 5), .ofNat (48 + k 6), 45, .ofNat (48 + k 8), .ofNat (48 + k 9)]

section
variable {k : Nat → Nat} (hk : ∀ i, k i < 10)
include hk

theorem validateDateStringFast_isoBytes :
    validateDateStringFast (isoBytes k) = true ↔
      let year := k 0 * 1000 + k 1 * 100 + k 2 * 10 + k 3
      let month := k 5 * 10 + k 6
      let day := k 8 * 10 + k 9
      (1 ≤ month ∧ month ≤ 12) ∧ (1 ≤ day ∧ day ≤ daysInMonth year month) ∧
        1900 ≤ year ∧ year ≤ 2199 := by
  have hrange : List.range 10 = [0, 1, 2, 3, 4, 5, 6, 7, 8, 9] := rfl
  have hzero := fun i => (digit_checks (k i) (hk i)).1
  have hdigit := fun i => (digit_checks (k i) (hk i)).2.1
  have hvalue := fun i => (digit_checks (k i) (hk i)).2.2
  unfold validateDateStringFast
  rw [hrange]
  simp only [isoBytes, byteAt, digitAt, List.any_cons, List.any_nil, List.getD_cons_zero,
    List.getD_cons_succ, List.getD_nil, hzero, hdigit, hvalue]
  -- the tests of the form pass, those of the calendar remain
  simp
  omega

theorem isoBytes_eq_text {d : Date} (hyear : d.year = k 0 * 1000 + k 1 * 100 + k 2 * 10 + k 3)
    (hmonth : d.month = k 5 * 10 + k 6) (hday : d.day = k 8 * 10 + k 9) : isoBytes k = d.text := by
  have hlt : k 1 < 10 ∧ k 2 < 10 ∧ k 3 < 10 ∧ k 5 < 10 ∧ k 6 < 10 ∧ k 8 < 10 ∧ k 9 < 10 :=
    ⟨hk 1, hk 2, hk 3, hk 5, hk 6, hk 8, hk 9⟩
  have h0 := hk 0
  have hbyte : ∀ {m n : Nat}, m = n → UInt8.ofNat (48 + m) = .ofNat (48 + n) := by
    rintro m _ rfl
    rfl
  simp only [Date.text, paddedText, isoBytes, hyear, hmonth, hday, List.cons_append, List.nil_append,
    List.cons.injEq, and_true, true_and]
  exact ⟨hbyte (by omega), hbyte (by omega), hbyte (by omega), hbyte (by omega), hbyte (by omega),
    hbyte (by omega), hbyte (by omega), hbyte (by omega)⟩

end

theorem length_eq_ten {s : Bytes} (h0 : 0 ∉ s) (hbody : ∀ i < 10, byteAt s i ≠ 0)
    (hend : byteAt s 10 = 0) : s.length = 10 := by
  have hinside : ∀ {i}, i < s.length → byteAt s i ≠ 0 := by
    intro i hi he
    rw [byteAt, List.getD_eq_getElem _ _ hi] at he
    exact h0 (he ▸ List.getElem_mem hi)
  have hlow : ¬s.length ≤ 9 := by
    intro hle
    refine hbody 9 (by decide) ?_
    rw [byteAt, List.getD_eq_default _ _ hle]
  have hhigh : ¬10 < s.length := fun hlt => hinside hlt hend
  omega

/-- Behind the tests of the form there are digits at their places. -/
theorem exists_isoBytes {s : Bytes} (h0 : 0 ∉ s) (h : validateDateStringFast s = true) :
    ∃ k : Nat → Nat, (∀ i, k i < 10) ∧ s = isoBytes k := by
  unfold validateDateStringFast at h
  split at h
  · cases h
  next hbody =>
  split at h
  · cases h
  next hend =>
  split at h
  · cases h
  next hform =>
  have hlen : s.length = 10 :=
    length_eq_ten h0 (by simpa using hbody) (by simpa using hend)
  have hplace : ∀ i < 10, (if i = 4 ∨ i = 7 then byteAt s i != 45
      else decide (byteAt s i < 48) || decide (57 < byteAt s i)) = false := by
    intro i hi
    rw [Bool.not_eq_true, List.any_eq_false] at hform
    exact Bool.eq_false_iff.mpr (hform i (List.mem_range.mpr hi))
  have hdigit : ∀ i < 10, ¬(i = 4 ∨ i = 7) → byteAt s i = .ofNat (48 + digitAt s i % 10) := by
    intro i hi hne
    have h := hplace i hi
    rw [if_neg hne] at h
    obtain ⟨k, hk, hbyte⟩ := exists_digit h
    rw [digitAt, hbyte, (digit_checks k hk).2.2, Nat.mod_eq_of_lt hk]
  have hdash : ∀ i < 10, (i = 4 ∨ i = 7) → byteAt s i = 45 := by
    intro i hi he
    have h := hplace i hi
    rw [if_pos he] at h
    simpa using h
  refine ⟨fun i => digitAt s i % 10, fun i => Nat.mod_lt _ (by decide), ?_⟩
  refine List.ext_getElem hlen fun i hi _ => ?_
  rw [← List.getD_eq_getElem s 0 hi]
  change byteAt s i = _
  rw [hlen] at hi
  interval_cases i
  all_goals first | exact hdigit _ (by decide) (by decide) | exact hdash _ (by decide) (by decide)

/-- The function accepts the texts of the days of three centuries. -/
theorem validateDateStringFast_iff {s : Bytes} (h0 : 0 ∉ s) :
    validateDateStringFast s = true ↔ ∃ d : Date, 1900 ≤ d.year ∧ d.year ≤ 2199 ∧ s = d.text := by
  constructor
  · intro h
    obtain ⟨k, hk, rfl⟩ := exists_isoBytes h0 h
    obtain ⟨hmonth, hday, hlow, hhigh⟩ := (validateDateStringFast_isoBytes hk).mp h
    rw [daysInMonth_eq hmonth] at hday
    exact ⟨⟨_, _, _, hmonth, hday⟩, hlow, hhigh, isoBytes_eq_text hk rfl rfl rfl⟩
  · rintro ⟨d, hlow, hhigh, rfl⟩
    let k (i : Nat) := [d.year / 1000, d.year / 100, d.year / 10, d.year, 0, d.month / 10, d.month, 0,
      d.day / 10, d.day].getD i 0 % 10
    have hk : ∀ i, k i < 10 := fun i => Nat.mod_lt _ (by decide)
    have hmonth := d.month_mem
    have hday := d.day_mem
    have hlength := monthLength_le d.year d.month
    have hyear : d.year = k 0 * 1000 + k 1 * 100 + k 2 * 10 + k 3 := by
      change d.year = d.year / 1000 % 10 * 1000 + d.year / 100 % 10 * 100 + d.year / 10 % 10 * 10 +
        d.year % 10
      omega
    have hmonth' : d.month = k 5 * 10 + k 6 := by
      change d.month = d.month / 10 % 10 * 10 + d.month % 10
      omega
    have hday' : d.day = k 8 * 10 + k 9 := by
      change d.day = d.day / 10 % 10 * 10 + d.day % 10
      omega
    rw [← isoBytes_eq_text hk hyear hmonth' hday', validateDateStringFast_isoBytes hk]
    dsimp only
    rw [← hyear, ← hmonth', ← hday', daysInMonth_eq hmonth]
    exact ⟨hmonth, hday, hlow, hhigh⟩

/-! ## The schema -/

theorem validateTypeDate_iff {v : Json} : (validateTypeDate v field err).1 = true ↔
    ∃ s, v = .string s ∧ validateDateStringFast (cstr s) = true := by
  unfold validateTypeDate
  split
  · split <;> simp [*]
  · rename_i hstring
    refine iff_of_false (by simp) ?_
    rintro ⟨s, rfl, -⟩
    exact hstring s rfl

section
variable (J : JsonC) (root : Json) (name : String)

/-- A date field of the sales schema, with any validator of its own. -/
def salesDate (validator : CustomValidatorFunc) : FieldValidator :=
  { fieldName := bytes name, type := .date, isRequired := true, customValidator := some validator }

/-- Either the field is a string that is a date, and then its validator decides, or it is refused
before its validator is called. -/
theorem validateField_salesDate :
    (∃ s, objectGetEx root (bytes name) = some (.string s) ∧ validateDateStringFast (cstr s) = true ∧
      ∀ validator err, validateField J root (salesDate name validator) err =
        validator (.string s) err) ∨
    (∀ s, objectGetEx root (bytes name) = some (.string s) → validateDateStringFast (cstr s) = false) ∧
      ∀ err, ∃ err', ∀ validator, validateField J root (salesDate name validator) err =
        (false, err') := by
  have hrequired : ∀ err, emitError err .required (bytes name) =
      (false, (emitError err .required (bytes name)).2) := fun err => Prod.ext emitError_fst rfl
  simp only [validateField, validateType, salesDate]
  split
  · next h => exact .inr ⟨by simp [h], fun err => ⟨_, fun _ => hrequired err⟩⟩
  · next h => exact .inr ⟨by simp [h], fun err => ⟨_, fun _ => hrequired err⟩⟩
  next v hnull hv =>
  rw [hv]
  by_cases hdate : ∃ s, v = .string s ∧ validateDateStringFast (cstr s) = true
  · obtain ⟨s, rfl, hdate⟩ := hdate
    have hempty : checkFieldEmpty (.string s) = false := by
      by_contra he
      simp only [checkFieldEmpty, beq_iff_eq, Bool.not_eq_false] at he
      rw [he] at hdate
      exact absurd hdate (by decide)
    refine .inl ⟨s, rfl, hdate, fun validator err => ?_⟩
    simp [hempty, validateTypeDate, hdate, runCustom]
  · refine .inr ⟨fun s h => ?_, fun err => ?_⟩
    · cases h
      exact Bool.eq_false_iff.mpr fun h => hdate ⟨s, rfl, h⟩
    · cases checkFieldEmpty v with
      | true => exact ⟨_, fun _ => by simp only [and_self, if_true]; exact hrequired err⟩
      | false =>
        -- the test of the type does not see the validator
        have htype : ∀ validator, validateTypeDate v (salesDate name validator) err =
            (false, (validateTypeDate v { fieldName := bytes name, type := .date } err).2) := by
          intro validator
          refine Prod.ext (Bool.eq_false_iff.mpr (mt validateTypeDate_iff.mp hdate)) ?_
          cases v <;> rfl
        simp only [salesDate] at htype
        refine ⟨(validateTypeDate v { fieldName := bytes name, type := .date } err).2, fun _ => ?_⟩
        simp only [Bool.false_eq_true, and_false, if_false, htype]

end

/-- What the sales schema asks of a payload: a range of days that starts in 1994 at the earliest and
ends in 1996 at the latest. -/
def SalesRange (root : Json) : Prop :=
  ∃ s e, objectGetEx root (bytes "start_date") = some (.string s) ∧
    objectGetEx root (bytes "end_date") = some (.string e) ∧
    ∃ start stop : Date, (start.year < 10000 ∧ cstr s = start.text) ∧
      (stop.year < 10000 ∧ cstr e = stop.text) ∧
      1994 ≤ start.year ∧ stop.year ≤ 1996 ∧ start.dayNumber < stop.dayNumber

/-- The sales schema with other validators in the place of its own. -/
def salesContextWith (start stop range : CustomValidatorFunc) : ValidationContext where
  schema := [salesDate "start_date" start, salesDate "end_date" stop]
  globalValidator := some range

theorem salesContext_eq (J : JsonC) : salesContext J = salesContextWith (validateSalesStartDate J)
    (validateSalesEndDate J) (salesInvariantValidator J) := rfl

/-- The validators do the same on every string, whatever they do elsewhere. -/
def AgreeOnStrings (f g : CustomValidatorFunc) :
    Prop := ∀ s err, f (.string s) err = g (.string s) err

/-- The validators do the same on every payload that has both dates as strings. -/
def AgreeOnDates (f g : CustomValidatorFunc) : Prop :=
  ∀ root s e err, objectGetEx root (bytes "start_date") = some (.string s) →
    objectGetEx root (bytes "end_date") = some (.string e) → f root err = g root err

theorem validateJson_salesContextWith_congr {J : JsonC} {start stop range : CustomValidatorFunc}
    {start' stop' range' : CustomValidatorFunc} (hstart : AgreeOnStrings start start')
    (hstop : AgreeOnStrings stop stop') (hrange : AgreeOnDates range range') (root : Json)
    (err : ErrBuf) :
    validateJson J (salesContextWith start stop range) root err =
      validateJson J (salesContextWith start' stop' range') root err := by
  unfold validateJson
  split
  · rfl
  cases root with
  | object ms =>
    simp only [salesContextWith, validateFields]
    obtain ⟨s, hs, -, hfirst⟩ | ⟨-, hfirst⟩ := validateField_salesDate J (.object ms) "start_date"
    · rw [hfirst, hfirst, hstart]
      generalize start' (.string s) err = first
      obtain ⟨_ | _, err⟩ := first
      · rfl
      obtain ⟨e, he, -, hsecond⟩ | ⟨-, hsecond⟩ := validateField_salesDate J (.object ms) "end_date"
      · simp only [hsecond, hstop e]
        generalize stop' (.string e) err = second
        obtain ⟨_ | _, err⟩ := second
        · rfl
        · exact hrange _ s e err hs he
      · obtain ⟨err', hsecond⟩ := hsecond err
        simp only [hsecond]
    · obtain ⟨err', hfirst⟩ := hfirst err
      rw [hfirst, hfirst]
  | _ => rfl

/-! ## The range -/

variable {J : JsonC} {ms : List (Bytes × Json)}

theorem validateSalesYear_text {tooFar : Int → Bool} {d : Date} (hyear : d.year < 10000)
    (h : cstr s = d.text) (err : ErrBuf) :
    validateSalesYear J tooFar message (.string s) err =
      if tooFar d.year then (false, err.print (bytes message)) else (true, err) := by
  have hread : cInt (strtol (cstr s)) = d.year := by
    rw [h, Date.strtol_text hyear]
    exact FitsInt.cInt ⟨by omega, by omega⟩
  simp only [validateSalesYear, JsonC.getString, Option.map_some, hread]

/-- The verdict on two dates. -/
theorem validateJson_sales_dates {start stop : Date} (hsize : 0 < err.size)
    (hs : objectGetEx (.object ms) (bytes "start_date") = some (.string s))
    (he : objectGetEx (.object ms) (bytes "end_date") = some (.string e))
    (hstart : start.year < 10000 ∧ cstr s = start.text)
    (hstop : stop.year < 10000 ∧ cstr e = stop.text)
    (hdates : validateDateStringFast (cstr s) = true ∧ validateDateStringFast (cstr e) = true) :
    (validateJson J (salesContext J) (.object ms) err).1 = true ↔
      1994 ≤ start.year ∧ stop.year ≤ 1996 ∧ start.dayNumber < stop.dayNumber := by
  have hfield : ∀ {name : String} {s : Bytes},
      objectGetEx (.object ms) (bytes name) = some (.string s) →
      validateDateStringFast (cstr s) = true → ∀ validator err,
        validateField J (.object ms) (salesDate name validator) err = validator (.string s) err := by
    intro name s hs hdate
    obtain ⟨s', hs', -, h⟩ | ⟨h, -⟩ := validateField_salesDate J (.object ms) name
    · rw [hs] at hs'
      cases hs'
      exact h
    · exact absurd hdate (Bool.eq_false_iff.mp (h s hs))
  have hinvariant : ∀ err, salesInvariantValidator J (.object ms) err =
      if strcmp start.text stop.text ≥ 0 then
        (false, err.print (bytes "Start date must strictly precede end date"))
      else (true, err) := by
    intro err
    simp only [salesInvariantValidator, jsonGetString, hs, he, Option.bind_some, JsonC.getString,
      Option.map_some, hstart.2, hstop.2]
  rw [← Date.strcmp_text hstart.1 hstop.1, salesContext_eq, validateJson, if_neg (by omega)]
  simp only [salesContextWith, validateFields, hfield hs hdates.1, hfield he hdates.2,
    validateSalesStartDate, validateSalesEndDate, validateSalesYear_text hstart.1 hstart.2,
    validateSalesYear_text hstop.1 hstop.2]
  by_cases hlow : (start.year : Int) ≤ 1993
  · simp [hlow]
    omega
  by_cases hhigh : (stop.year : Int) ≥ 1997
  · simp [hlow, hhigh]
    omega
  · simp only [hlow, hhigh, decide_false, Bool.false_eq_true, if_false, runCustom, hinvariant]
    split
    · exact iff_of_false (by simp) (by omega)
    · exact iff_of_true rfl (by omega)

/-- The sales schema accepts exactly the payloads with a range of days in 1994 to 1996, and what its
validators would do on a field that is absent or no string has no influence on any payload. -/
theorem validateJson_sales_iff (J : JsonC) (ms : List (Bytes × Json)) {err : ErrBuf}
    (hsize : 0 < err.size) :
    ((validateJson J (salesContext J) (.object ms) err).1 = true ↔ SalesRange (.object ms)) ∧
      ∀ start stop range, AgreeOnStrings start (validateSalesStartDate J) →
        AgreeOnStrings stop (validateSalesEndDate J) →
        AgreeOnDates range (salesInvariantValidator J) → ∀ root err,
          validateJson J (salesContextWith start stop range) root err =
            validateJson J (salesContext J) root err := by
  refine ⟨⟨fun h => ?_, ?_⟩, fun start stop range h₁ h₂ h₃ root err =>
    validateJson_salesContextWith_congr h₁ h₂ h₃ root err⟩
  · -- both fields have passed, so both are dates
    have hpassed : ∀ (name : String) {validator : CustomValidatorFunc},
        salesDate name validator ∈ (salesContext J).schema →
        ∃ s d, objectGetEx (.object ms) (bytes name) = some (.string s) ∧
          validateDateStringFast (cstr s) = true ∧ d.year < 10000 ∧ cstr s = Date.text d := by
      intro name validator hmem
      obtain ⟨err', hfield⟩ := validateFields_mem (validateJson_fields h) hmem
      obtain ⟨s, hs, hdate, -⟩ | ⟨-, hrefused⟩ := validateField_salesDate J (.object ms) name
      · obtain ⟨d, -, hhigh, htext⟩ := (validateDateStringFast_iff (zero_notMem_cstr s)).mp hdate
        exact ⟨s, d, hs, hdate, by omega, htext⟩
      · obtain ⟨err'', hrefused⟩ := hrefused err'
        rw [hrefused] at hfield
        cases hfield
    obtain ⟨s, start, hs, hdate, hstart⟩ := hpassed "start_date" (List.mem_cons_self ..)
    obtain ⟨e, stop, he, hdate', hstop⟩ :=
      hpassed "end_date" (List.mem_cons_of_mem _ (List.mem_cons_self ..))
    exact ⟨s, e, hs, he, start, stop, hstart, hstop,
      (validateJson_sales_dates hsize hs he hstart hstop ⟨hdate, hdate'⟩).mp h⟩
  · rintro ⟨s, e, hs, he, start, stop, hstart, hstop, hrange⟩
    have hearlier : start.year ≤ stop.year := by
      have := Date.dayNumber_lt_iff.mp hrange.2.2
      unfold Date.Earlier at this
      omega
    have hdates : validateDateStringFast (cstr s) = true ∧ validateDateStringFast (cstr e) = true :=
      ⟨(validateDateStringFast_iff (zero_notMem_cstr s)).mpr ⟨start, by omega, by omega, hstart.2⟩,
        (validateDateStringFast_iff (zero_notMem_cstr e)).mpr ⟨stop, by omega, by omega, hstop.2⟩⟩
    exact (validateJson_sales_dates hsize hs he hstart hstop hdates).mpr hrange

/-- Two days around the end of a February with a leap day. -/
theorem validateJson_sales_leap :
    let root : Json := .object [(bytes "start_date", .string (bytes "1996-02-29")),
      (bytes "end_date", .string (bytes "1996-03-01"))]
    (validateJson .reference (salesContext .reference) root ⟨1024, []⟩).1 = true ∧
      SalesRange root := by
  have hiff := @validateJson_sales_iff .reference [(bytes "start_date", .string (bytes "1996-02-29")),
    (bytes "end_date", .string (bytes "1996-03-01"))] ⟨1024, []⟩ (by decide)
  exact ⟨by decide, hiff.1.mp (by decide)⟩

end ApiServer
