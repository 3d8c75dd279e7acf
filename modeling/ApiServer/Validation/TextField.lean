import ApiServer.Lib.Utf8
import ApiServer.Validation.IntField

/-!
# What a handler reads from a validated string field

A required string of an accepted payload is there, and the C string a handler gets is not empty and
has no more characters than the schema allows.
-/

namespace ApiServer
open Bytes

variable {J : JsonC} {ctx : ValidationContext} {root : Json} {err : ErrBuf} {field : FieldValidator}

/-- A required field of an accepted payload is present and not empty. -/
theorem validateJson_required (h : (validateJson J ctx root err).1 = true) (hf : field ∈ ctx.schema)
    (hreq : field.isRequired = true) :
    ∃ v, objectGetEx root field.fieldName = some v ∧ v ≠ .null ∧ checkFieldEmpty v = false := by
  obtain ⟨err, hfield⟩ := validateFields_mem (validateJson_fields h) hf
  rw [validateField] at hfield
  split at hfield
  · simp [hreq] at hfield
  · simp [hreq] at hfield
  · rename_i v hnull hv
    refine ⟨v, hv, hnull, ?_⟩
    by_contra hempty
    rw [Bool.not_eq_false] at hempty
    simp [hreq, hempty] at hfield

theorem utf8Strlen_le (s : Bytes) : utf8Strlen s ≤ s.length :=
  List.countP_le_length.trans (List.takeWhile_sublist _).length_le

/-- The comparison of the byte length in front of the count of the characters decides nothing. -/
theorem validateTypeString_iff {v : Json} : (validateTypeString v field err).1 = true ↔
    ∃ s, v = .string s ∧ (0 < field.maxLen → utf8Strlen s ≤ field.maxLen) := by
  unfold validateTypeString
  split
  · rename_i s
    simp only [Json.string.injEq, exists_eq_left']
    have hbytes := utf8Strlen_le s
    have hint := cInt_le field.maxLen
    split
    · exact iff_of_false (by simp) fun h => by omega
    · refine iff_of_true rfl fun hpos => ?_
      omega
  · rename_i hstring
    refine iff_of_false (by simp) ?_
    rintro ⟨s, rfl, -⟩
    exact hstring s rfl

/-- The bytes that `utf8_strlen` counts are the code points of a valid text. -/
theorem utf8Strlen_encode {us : List Nat} (h : ∀ u ∈ us, Utf8.IsScalar u)
    (hs : cstr s = Utf8.encode us) : utf8Strlen s = us.length := by
  rw [utf8Strlen, hs]
  exact Utf8.countP_encode h

/-- The limit of a required string field holds of what `json_get_string` returns. -/
theorem validateJson_text (h : (validateJson J ctx root err).1 = true) (hf : field ∈ ctx.schema)
    (hreq : field.isRequired = true) (htype : field.type = .string) (hpos : 0 < field.maxLen) :
    ∃ s, objectGetEx root field.fieldName = some (.string s) ∧
      jsonGetString J root field.fieldName = some (cstr s) ∧ cstr s ≠ [] ∧
      utf8Strlen s ≤ field.maxLen := by
  obtain ⟨v, hv, hnull, hempty⟩ := validateJson_required h hf hreq
  obtain ⟨err', htext⟩ := validateJson_field h hf hv hnull
  rw [validateType, htype] at htext
  obtain ⟨s, rfl, hlimit⟩ := validateTypeString_iff.mp htext
  refine ⟨s, hv, ?_, by simpa [checkFieldEmpty] using hempty, hlimit hpos⟩
  rw [jsonGetString, hv]
  rfl

/-! ## How long a text can be -/

/-- What the limit of a string field says to the authors of handlers: whatever schema and payload
this text stands in, if the payload is accepted, a handler reads at most four bytes for each of the
characters allowed. -/
def LimitBounds (J : JsonC) (s : Bytes) : Prop :=
  ∀ (ctx : ValidationContext) (field : FieldValidator) (root : Json) (err : ErrBuf),
    field ∈ ctx.schema → field.type = .string → 0 < field.maxLen →
    objectGetEx root field.fieldName = some (.string s) → (validateJson J ctx root err).1 = true →
    ∃ text, jsonGetString J root field.fieldName = some text ∧ text.length ≤ 4 * field.maxLen

/-- The characters of an accepted text are counted. -/
theorem utf8Strlen_of_accepted {s : Bytes} (h : (validateJson J ctx root err).1 = true)
    (hf : field ∈ ctx.schema) (htype : field.type = .string) (hpos : 0 < field.maxLen)
    (hv : objectGetEx root field.fieldName = some (.string s)) :
    jsonGetString J root field.fieldName = some (cstr s) ∧ utf8Strlen s ≤ field.maxLen := by
  obtain ⟨err', htext⟩ := validateJson_field h hf hv (by intro hnull; cases hnull)
  rw [validateType, htype] at htext
  obtain ⟨t, ht, hlimit⟩ := validateTypeString_iff.mp htext
  cases ht
  exact ⟨by rw [jsonGetString, hv]; rfl, hlimit hpos⟩

theorem validateTypeString_within {s : Bytes} (h : utf8Strlen s ≤ field.maxLen) :
    validateTypeString (.string s) field err = (true, err) :=
  if_neg fun hlong => Nat.not_lt.mpr h hlong.2.2

/-- A schema of one optional text. -/
def textContext (maxLen : Nat) : ValidationContext where
  schema := [{ fieldName := bytes "text", type := .string, maxLen }]

/-- It accepts every text that has no more characters than it allows. -/
theorem validateJson_textContext {s : Bytes} {maxLen : Nat} (hs : utf8Strlen s ≤ maxLen) :
    validateJson J (textContext maxLen) (.object [(bytes "text", .string s)]) ⟨1024, []⟩ =
      (true, ⟨1024, []⟩) := by
  have hfound : objectGetEx (.object [(bytes "text", .string s)]) (bytes "text") =
      some (.string s) := rfl
  have hcheck : validateTypeString (.string s)
      { fieldName := bytes "text", type := .string, maxLen } ⟨1024, []⟩ = (true, ⟨1024, []⟩) :=
    validateTypeString_within hs
  simp [validateJson, textContext, validateFields, validateField, hfound, validateType, hcheck,
    runCustom]

/-- The limits of string fields bound the bytes that handlers read of a text exactly when it has at
most four bytes for each of its characters: bytes that continue a sequence are not counted, wherever
they stand. The code points of a valid text are always bounded, and its bytes with them; and every
valid text within the limit passes. -/
theorem maxLen_bounds_iff (J : JsonC) (s : Bytes) :
    (LimitBounds J s ↔ (cstr s).length ≤ 4 * max 1 (utf8Strlen s)) ∧
    (∀ (ctx : ValidationContext) (field : FieldValidator) (root : Json) (err : ErrBuf),
      field ∈ ctx.schema → field.type = .string → 0 < field.maxLen →
      objectGetEx root field.fieldName = some (.string s) → (validateJson J ctx root err).1 = true →
      jsonGetString J root field.fieldName = some (cstr s) ∧
      ∀ us, (∀ u ∈ us, Utf8.IsScalar u) → cstr s = Utf8.encode us →
        us.length ≤ field.maxLen ∧ (cstr s).length ≤ 4 * field.maxLen) ∧
    ∀ us, (∀ u ∈ us, Utf8.IsScalar u) → s = Utf8.encode us → 0 ∉ s →
      ∀ (field : FieldValidator) (err : ErrBuf), field.type = .string → us.length ≤ field.maxLen →
        validateType J (.string s) field err = (true, err) := by
  refine ⟨⟨fun h => ?_, fun hs ctx field root err hf htype hpos hv hok => ?_⟩,
    fun ctx field root err hf htype hpos hv hok => ?_, fun us hus hs h0 field err htype hlen => ?_⟩
  · -- the smallest limit under which the text is accepted
    obtain ⟨text, htext, hlen⟩ := h (textContext (max 1 (utf8Strlen s))) _
      (.object [(bytes "text", .string s)]) _ (List.mem_singleton_self _) rfl
      (Nat.lt_of_lt_of_le Nat.one_pos (Nat.le_max_left ..)) rfl
      (congrArg Prod.fst (validateJson_textContext (Nat.le_max_right ..)))
    cases htext
    exact hlen
  · obtain ⟨hget, hcount⟩ := utf8Strlen_of_accepted hok hf htype hpos hv
    exact ⟨cstr s, hget, by omega⟩
  · obtain ⟨hget, hcount⟩ := utf8Strlen_of_accepted hok hf htype hpos hv
    refine ⟨hget, fun us hus hs => ?_⟩
    rw [utf8Strlen_encode hus hs] at hcount
    have hbytes := Utf8.length_encode_le hus
    rw [hs]
    omega
  · have hcount := utf8Strlen_encode hus ((cstr_eq_self h0).trans hs)
    rw [validateType, htype]
    exact validateTypeString_within (hcount ▸ hlen)

/-- A user name of one character of two bytes. -/
theorem maxLen_bounds_iff_login :
    let s : Bytes := [0xC3, 0xA1]
    let root : Json := .object [(bytes "username", .string s), (bytes "password", .string [120])]
    LimitBounds .reference s ∧ (validateJson .reference loginContext root ⟨1024, []⟩).1 = true ∧
      jsonGetString .reference root (bytes "username") = some s := by
  obtain ⟨hbounds, haccepted, -⟩ := maxLen_bounds_iff .reference [0xC3, 0xA1]
  have hok : (validateJson .reference loginContext (.object [(bytes "username",
    .string [0xC3, 0xA1]), (bytes "password", .string [120])]) ⟨1024, []⟩).1 = true := by decide
  exact ⟨hbounds.mpr (by decide), hok, (haccepted loginContext (requiredText "username" 32) _ _
    (List.mem_cons_self ..) rfl (by decide) rfl hok).1⟩

/-- Bytes that continue nothing count for no character, so they pass in any number. -/
theorem continuation_bytes_pass :
    let s : Bytes := List.replicate 129 0x80
    let root : Json := .object [(bytes "username", .string s), (bytes "password", .string [120])]
    (validateJson .reference loginContext root ⟨1024, []⟩).1 = true ∧
      jsonGetString .reference root (bytes "username") = some s ∧ ¬s.length ≤ 4 * 32 ∧
      ¬(cstr s).length ≤ 4 * max 1 (utf8Strlen s) := by
  refine ⟨by decide +kernel, by decide +kernel, by decide +kernel, by decide +kernel⟩

end ApiServer
