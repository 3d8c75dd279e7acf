import ApiServer.Schemas

/-!
# What a handler reads from a validated integer field

The validator compares the value saturated to `int`, a handler stores `json_get_int`, a saturated
`int64_t`, in an `int`. The two agree exactly on the payloads whose integer fits an `int`.
-/

namespace ApiServer

variable {J : JsonC}

/-- `int id = json_get_int(body, f)`. -/
def handlerInt (J : JsonC) (body : Json) (f : Bytes) : Int := cInt (jsonGetInt J body f)

theorem validateFields_mem {root : Json} {fields : List FieldValidator} {err : ErrBuf}
    (H : (validateFields J root fields err).1 = true) {field : FieldValidator}
    (hf : field ∈ fields) : ∃ err, (validateField J root field err).1 = true := by
  induction fields generalizing err with
  | nil => cases hf
  | cons f fields ih =>
    rw [validateFields] at H
    cases hv : validateField J root f err with
    | mk ok err' =>
      rw [hv] at H
      cases ok with
      | false => cases H
      | true =>
        rcases List.mem_cons.mp hf with rfl | hf
        · exact ⟨err, by rw [hv]⟩
        · exact ih H hf

theorem validateJson_fields {ctx : ValidationContext} {root : Json} {err : ErrBuf}
    (H : (validateJson J ctx root err).1 = true) :
    (validateFields J root ctx.schema err).1 = true := by
  unfold validateJson at H
  split at H
  · cases H
  · split at H
    · split at H
      · cases H
      · rename_i h; rw [h]
    · cases H

/-- A validator of an accepted payload has run over its field, if the payload has one. -/
theorem validateJson_field {ctx : ValidationContext} {root : Json} {err : ErrBuf}
    (H : (validateJson J ctx root err).1 = true) {field : FieldValidator}
    (hf : field ∈ ctx.schema) {v : Json} (hv : objectGetEx root field.fieldName = some v)
    (hnull : v ≠ .null) : ∃ err, (validateType J v field err).1 = true := by
  obtain ⟨err, h⟩ := validateFields_mem (validateJson_fields H) hf
  refine ⟨err, ?_⟩
  rw [validateField, hv] at h
  split at h
  · rename_i e; cases e
  · rename_i e; cases e; exact absurd rfl hnull
  · rename_i e
    cases e
    split at h
    · simp at h
    · split at h
      · cases h
      · rename_i ht; rw [ht]

theorem validateTypeInt_eq_true {v : Json} {field : FieldValidator} {err : ErrBuf}
    (H : (validateTypeInt J v field err).1 = true) :
    ∃ n, v = .int n ∧ (field.hasMin = true → field.minInt ≤ saturate 32 n) ∧
      (field.hasMax = true → saturate 32 n ≤ field.maxInt) := by
  unfold validateTypeInt at H
  split at H
  · rename_i n
    dsimp only [JsonC.getInt] at H
    split at H
    · simp at H
    · rename_i hmin
      split at H
      · simp at H
      · rename_i hmax
        refine ⟨n, rfl, fun h => ?_, fun h => ?_⟩
        · exact Int.not_lt.mp fun hlt => hmin ⟨h, hlt⟩
        · exact Int.not_lt.mp fun hlt => hmax ⟨h, hlt⟩
  · simp at H

/-- The integer `n` written in the payload reaches the handler, within the declared bounds. -/
structure IntFieldFaithful (J : JsonC) (body : Json) (field : FieldValidator) (n : Int) : Prop where
  written : objectGetEx body field.fieldName = some (.int n)
  value : handlerInt J body field.fieldName = n
  min : field.hasMin = true → field.minInt ≤ handlerInt J body field.fieldName
  max : field.hasMax = true → handlerInt J body field.fieldName ≤ field.maxInt

theorem handlerInt_of_written {body : Json} {f : Bytes} {n : Int}
    (h : objectGetEx body f = some (.int n)) : handlerInt J body f = cInt (saturate 64 n) := by
  rw [handlerInt, jsonGetInt, h]; rfl

/-- For an accepted payload with the field present, the handler reads the integer written there,
within the bounds, if and only if that integer fits an `int`. -/
theorem validateJson_intField_iff {ctx : ValidationContext} {body : Json} {err : ErrBuf}
    {field : FieldValidator} {v : Json} (hf : field ∈ ctx.schema) (ht : field.type = .int)
    (hv : objectGetEx body field.fieldName = some v) (hnull : v ≠ .null)
    (hacc : (validateJson J ctx body err).1 = true) :
    ∃ n, v = .int n ∧ (IntFieldFaithful J body field n ↔ FitsInt n) := by
  obtain ⟨err', h⟩ := validateJson_field hacc hf hv hnull
  rw [validateType, ht] at h
  obtain ⟨n, rfl, hmin, hmax⟩ := validateTypeInt_eq_true h
  have hread := handlerInt_of_written (J := J) hv
  refine ⟨n, rfl, fun H => ?_, fun H => ?_⟩
  · rw [← H.value]
    exact cInt_fits _
  · have hval : handlerInt J body field.fieldName = n := by
      rw [hread, H.int64.saturate, H.cInt]
    rw [H.saturate] at hmin hmax
    exact ⟨hv, hval, fun h => hval ▸ hmin h, fun h => hval ▸ hmax h⟩

theorem validateJson_intField_prodget :
    ∃ n, Json.int 7 = .int n ∧
      (IntFieldFaithful .reference (.object [(bytes "id", .int 7)]) (positiveId "id") n ↔
        FitsInt n) :=
  @validateJson_intField_iff _ prodgetContext _ ⟨1024, []⟩ _ _ (List.mem_singleton_self _)
    rfl rfl (by simp) (by decide)

/-- `POST /prodget` with `4294967296`: the validator sees `INT_MAX`, the handler gets zero. -/
theorem prodget_id_truncated :
    let body : Json := .object [(bytes "id", .int 4294967296)]
    (validateJson .reference prodgetContext body ⟨1024, []⟩).1 = true ∧
      positiveId "id" ∈ prodgetContext.schema ∧
      objectGetEx body (bytes "id") = some (.int 4294967296) ∧
      handlerInt .reference body (bytes "id") = 0 ∧
      ¬IntFieldFaithful .reference body (positiveId "id") 4294967296 := by
  refine ⟨by decide, List.mem_singleton_self _, rfl, by decide, fun H => ?_⟩
  exact absurd H.value (by decide)

end ApiServer
