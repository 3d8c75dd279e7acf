import ApiServer.Isolation
import ApiServer.Validation.TextField

/-!
# The replies of a request that is refused

A refusal by `worker_process_jwt` or `worker_process_payload` has one of a few fixed texts.
`worker_process_validation` puts the message of the validator between quotes as it is, so its reply is
JSON as long as the message has nothing to escape and fits. On the routes of the server that depends
on the customer id alone, which `customer_id_validator` repeats in its message.
-/

namespace ApiServer
open Bytes Json

/-! ## An object with one string -/

/-- The reply is JSON and has `msg` as its error. -/
def Says (reply msg : Bytes) : Prop :=
  Json.parse reply = some (.object [(bytes "error", .string msg)])

/-- A message that can stand between quotes, and that fits the 1024 bytes of `ev_err` with the braces
around it. -/
def Quotable (msg : Bytes) : Prop := Plain msg ∧ msg.length ≤ 1011

instance : Decidable (Quotable msg) := inferInstanceAs (Decidable (_ ∧ _))

theorem says_errorReply (h : Plain msg) : Says (errorReply msg) msg := by
  let m : Member := ⟨bytes "error", bytes "error", .string msg, 34 :: msg ++ [34]⟩
  have hsound : ∀ m' ∈ [m], m'.Sound 0 := by
    rw [List.forall_mem_singleton]
    have hkey : Plain (bytes "error") := by decide
    exact ⟨.plain hkey, valueText_string (.plain h)⟩
  have htext : objectText [m] = errorReply msg := by
    simp [objectText, membersText, Member.text, m, errorReply, bytes]
  rw [Says, ← htext]
  exact parse_valueText (valueText_object (List.cons_ne_nil _ _) hsound) (by simp [objectText])

theorem says_snprintf_iff : Says (snprintf 1024 (errorReply msg)) msg ↔ Quotable msg := by
  constructor
  · intro h
    have hsplit : snprintf 1024 (errorReply msg) =
        123 :: 34 :: bytes "error" ++ 34 :: 58 :: 34 :: (msg ++ [34, 125]).take 1013 := by
      rw [snprintf, errorReply, List.append_assoc, List.take_append]
      rfl
    rw [Says, hsplit] at h
    obtain ⟨e, rest, he, hrest, hdenotes⟩ := parse_firstString (.plain (by decide)) h
    have hpos := List.length_pos_of_ne_nil hrest
    have hlen := congrArg List.length he
    simp only [List.length_take, List.length_append, List.length_cons, List.length_nil] at hlen
    have hle := hdenotes.length_le
    exact ⟨(hdenotes.plain (by omega)).2, by omega⟩
  · rintro ⟨hplain, hlen⟩
    rw [snprintf_eq_self]
    · exact says_errorReply hplain
    · simp only [errorReply, List.length_append]
      change 10 + msg.length + 2 < 1024
      omega

/-! ## Messages without text of the payload -/

/-- The error buffer of a worker, with a message that can be quoted. -/
structure ErrBuf.Tame (err : ErrBuf) : Prop where
  size : err.size = 1024
  text : Quotable err.text

theorem ErrBuf.Tame.print {err : ErrBuf} (H : err.Tame) (h : Quotable msg) :
    (err.print msg).Tame := by
  refine ⟨H.size, ?_⟩
  have hfits : snprintf err.size msg = msg := snprintf_eq_self (by have := H.size; have := h.2; omega)
  change Quotable (snprintf err.size msg)
  rwa [hfits]

/-- A name of a field that a message can repeat. -/
def ShortName (name : Bytes) : Prop := Plain name ∧ name.length ≤ 128

instance : Decidable (ShortName name) := inferInstanceAs (Decidable (_ ∧ _))

theorem quotable_around (hname : ShortName name) {pre post : Bytes}
    (h : Plain pre ∧ Plain post ∧ pre.length + post.length ≤ 512) :
    Quotable (pre ++ name ++ post) := by
  refine ⟨plain_append.mpr ⟨plain_append.mpr ⟨h.1, hname.1⟩, h.2.1⟩, ?_⟩
  have := hname.2
  simp only [List.length_append]
  omega

theorem quotable_message (hname : ShortName name) (code : ErrorCode) :
    Quotable (code.message name) := by
  cases code with
  | unknownType | maxErrors =>
    dsimp only [ErrorCode.message]
    rw [bytes_ofList]
    decide
  | _ => exact quotable_around hname (by rw [bytes_ofList, bytes_ofList]; decide)

theorem emitError_tame {err : ErrBuf} (H : err.Tame) (hname : ShortName name) (code : ErrorCode) :
    (emitError err code name).2.Tame := by
  unfold emitError
  split
  · exact H
  · exact H.print (quotable_message hname code)

section
variable {J : JsonC} {root obj : Json} {field : FieldValidator} {err : ErrBuf}

/-- A type validator passes and leaves the buffer alone, or it reports one error. -/
theorem validateType_cases : validateType J obj field err = (true, err) ∨
    ∃ code name, validateType J obj field err = emitError err code name ∧
      (name = field.fieldName ∨ name = []) := by
  have hpass : (true, err) = (true, err) ∨ ∃ code name, (true, err) = emitError err code name ∧
      (name = field.fieldName ∨ name = []) := .inl rfl
  have hfail : ∀ code, emitError err code field.fieldName = (true, err) ∨ ∃ code' name,
      emitError err code field.fieldName = emitError err code' name ∧
        (name = field.fieldName ∨ name = []) := fun code => .inr ⟨code, _, rfl, .inl rfl⟩
  unfold validateType
  cases field.type with
  | int =>
    dsimp only [validateTypeInt]
    cases obj with
    | int n =>
      dsimp only
      split
      · exact hfail _
      split
      · exact hfail _
      · exact hpass
    | _ => exact hfail _
  | double =>
    dsimp only [validateTypeDouble]
    cases obj with
    | int _ | double _ =>
      dsimp only
      split
      · exact hfail _
      · exact hfail _
      split
      · exact hfail _
      split
      · exact hfail _
      · exact hpass
    | _ => exact hfail _
  | string =>
    cases obj with
    | string s =>
      dsimp only [validateTypeString]
      split
      · exact hfail _
      · exact hpass
    | _ => exact hfail _
  | date =>
    cases obj with
    | string s =>
      dsimp only [validateTypeDate]
      split
      · exact hpass
      · exact hfail _
    | _ => exact hfail _
  | maxTypes => exact .inr ⟨_, [], rfl, .inr rfl⟩

theorem validateType_of_true (h : (validateType J obj field err).1 = true) :
    validateType J obj field err = (true, err) := by
  obtain hpass | ⟨code, name, hfail, -⟩ := @validateType_cases J obj field err
  · exact hpass
  · rw [hfail, emitError_fst] at h
    cases h

theorem validateType_tame (hname : ShortName field.fieldName) (H : err.Tame) :
    (validateType J obj field err).2.Tame := by
  obtain h | ⟨code, name, h, rfl | rfl⟩ := @validateType_cases J obj field err
  · rwa [h]
  · rw [h]
    exact emitError_tame H hname code
  · rw [h]
    exact emitError_tame H (by decide) code

/-- A validator of the application that keeps the buffer quotable. -/
def TameValidator (v : CustomValidatorFunc) : Prop := ∀ obj err, err.Tame → (v obj err).2.Tame

theorem runCustom_tame {v : Option CustomValidatorFunc} (hv : ∀ f, v = some f → TameValidator f)
    (H : err.Tame) : (runCustom v obj err).2.Tame := by
  cases v with
  | none => exact H
  | some f => exact hv f rfl obj err H

structure FieldValidator.Harmless (field : FieldValidator) : Prop where
  name : ShortName field.fieldName
  custom : ∀ v, field.customValidator = some v → TameValidator v

theorem FieldValidator.Harmless.tame (hfield : field.Harmless) (H : err.Tame) :
    (validateField J root field err).2.Tame := by
  have hrequired := emitError_tame H hfield.name .required
  unfold validateField
  split
  · split
    · exact hrequired
    · exact H
  · split
    · exact hrequired
    · exact H
  next obj _ _ =>
  split
  · exact hrequired
  have htype := @validateType_tame J obj field err hfield.name H
  split
  · next h =>
    rw [h] at htype
    exact htype
  · next h =>
    rw [h] at htype
    exact runCustom_tame hfield.custom htype

/-! ## The customer id -/

/-- A field with `customer_id_validator`. -/
def customerIdField (J : JsonC) (name : String) : FieldValidator :=
  { requiredText name 5 with customValidator := some (customerIdValidator J) }

def IsCustomerId (id : Bytes) : Prop := id.length = 5 ∧ ∀ c ∈ id, isAlpha c = true

/-- What `customer_id_validator` says about a string that is no customer id. -/
def idMessage (id : Bytes) : Bytes :=
  bytes (if id.length ≠ 5 then "Invalid customer ID format: "
    else "Invalid customer ID character: ") ++ id

theorem customerIdValidator_string (s : Bytes) :
    customerIdValidator J (.string s) err = (true, err) ∧ IsCustomerId (cstr s) ∨
      customerIdValidator J (.string s) err = (false, err.print (idMessage (cstr s))) ∧
        ¬IsCustomerId (cstr s) := by
  simp only [customerIdValidator, JsonC.getString, Option.map_some, idMessage, IsCustomerId]
  split
  · next h => exact .inr ⟨rfl, fun hid => h hid.1⟩
  next h =>
  rw [not_not] at h
  split
  · next hany =>
    refine .inr ⟨rfl, fun hid => ?_⟩
    obtain ⟨c, hc, hbad⟩ := List.any_eq_true.mp hany
    rw [hid.2 c hc] at hbad
    cases hbad
  · next hany =>
    refine .inl ⟨rfl, h, fun c hc => ?_⟩
    by_contra hbad
    exact hany (List.any_eq_true.mpr ⟨c, hc, by simpa using hbad⟩)

/-- A message with an id is quotable when the id is. -/
theorem quotable_idMessage (id : Bytes) :
    Quotable (snprintf 1024 (idMessage id)) ↔ Plain id ∧ id.length ≤ 983 := by
  have hformat : Plain (bytes "Invalid customer ID format: ") := plain_ofList (by decide)
  have hcharacter : Plain (bytes "Invalid customer ID character: ") := plain_ofList (by decide)
  unfold idMessage Quotable
  by_cases h5 : id.length = 5
  · rw [if_neg (by simpa using h5), snprintf_eq_self, plain_append, List.length_append]
    · exact ⟨fun h => ⟨h.1.2, by omega⟩, fun h => ⟨⟨hcharacter, h.1⟩, by rw [h5]; decide⟩⟩
    · rw [List.length_append, h5]
      decide
  · rw [if_pos h5]
    have hlen : (bytes "Invalid customer ID format: " ++ id).length = 28 + id.length :=
      List.length_append
    by_cases hlong : 28 + id.length < 1024
    · rw [snprintf_eq_self (by omega), plain_append, hlen]
      exact ⟨fun h => ⟨h.1.2, by omega⟩, fun h => ⟨⟨hformat, h.1⟩, by omega⟩⟩
    · rw [snprintf, List.length_take, hlen]
      exact ⟨fun h => by omega, fun h => by omega⟩

/-- The payload gets as far as `customer_id_validator`, which refuses `id` and repeats it. -/
def QuotesId (J : JsonC) (schema : List FieldValidator) (body : Json) (id : Bytes) : Prop :=
  ∃ before name after s, schema = before ++ customerIdField J name :: after ∧
    (validateFields J body before ⟨1024, []⟩).1 = true ∧
    objectGetEx body (bytes name) = some (.string s) ∧ utf8Strlen s ≤ 5 ∧
    id = cstr s ∧ id ≠ [] ∧ ¬IsCustomerId id

theorem validateField_customerId (J : JsonC) (root : Json) {name : String}
    (hname : ShortName (bytes name)) (H : err.Tame) :
    (validateField J root (customerIdField J name) err).2.Tame ∨
      ∃ s, objectGetEx root (bytes name) = some (.string s) ∧ utf8Strlen s ≤ 5 ∧ cstr s ≠ [] ∧
        ¬IsCustomerId (cstr s) := by
  rw [or_iff_not_imp_right]
  intro hno
  have hrequired := emitError_tame H hname .required
  unfold validateField
  split
  · exact hrequired
  · exact hrequired
  next obj _ hobj =>
  split
  · exact hrequired
  next hempty =>
  have htame := @validateType_tame J obj (customerIdField J name) err hname H
  split
  · next h =>
    rw [h] at htame
    exact htame
  · next h =>
    have htrue : (validateType J obj (customerIdField J name) err).1 = true := by rw [h]
    rw [validateType_of_true htrue] at h
    cases h
    obtain ⟨s, rfl, hlen⟩ := validateTypeString_iff.mp htrue
    obtain ⟨hpass, -⟩ | ⟨-, hid⟩ := @customerIdValidator_string J err s
    · rw [show runCustom (customerIdField J name).customValidator = customerIdValidator J from rfl,
        hpass]
      exact H
    · refine absurd ⟨s, hobj, hlen (Nat.succ_pos 4), fun he => hempty ⟨rfl, ?_⟩, hid⟩ hno
      simpa [checkFieldEmpty] using he

theorem validateField_quotes {name : String} {s : Bytes}
    (hs : objectGetEx root (bytes name) = some (.string s)) (hlen : utf8Strlen s ≤ 5)
    (hne : cstr s ≠ []) (hid : ¬IsCustomerId (cstr s)) :
    validateField J root (customerIdField J name) err = (false, err.print (idMessage (cstr s))) := by
  have htype : validateType J (.string s) (customerIdField J name) err = (true, err) :=
    validateType_of_true <| by
      rw [validateType, show (customerIdField J name).type = .string from rfl]
      exact validateTypeString_iff.mpr ⟨s, rfl, fun _ => hlen⟩
  have hempty : checkFieldEmpty (.string s) = false := by simpa [checkFieldEmpty] using hne
  obtain ⟨-, h⟩ | ⟨hcustom, -⟩ := @customerIdValidator_string J err s
  · exact absurd h hid
  · simp only [validateField, show (customerIdField J name).fieldName = bytes name from rfl, hs, hempty,
      htype, Bool.false_eq_true, and_false, if_false]
    exact hcustom

/-! ## Schemas -/

theorem validateFields_append (before after : List FieldValidator) :
    validateFields J root (before ++ after) err =
      match validateFields J root before err with
      | (false, err) => (false, err)
      | (true, err) => validateFields J root after err := by
  induction before generalizing err with
  | nil => rfl
  | cons f before ih =>
    rw [List.cons_append, validateFields, validateFields]
    cases validateField J root f err with
    | mk ok err => cases ok with
      | false => rfl
      | true => exact ih

/-- The messages about a field repeat nothing of the payload but a customer id. -/
def FieldValidator.Cautious (J : JsonC) (field : FieldValidator) : Prop :=
  field.Harmless ∨ ∃ name, field = customerIdField J name ∧ ShortName (bytes name)

structure ValidationContext.Cautious (J : JsonC) (ctx : ValidationContext) : Prop where
  fields : ∀ f ∈ ctx.schema, f.Cautious J
  global : ∀ g, ctx.globalValidator = some g → TameValidator g

variable {fields passed : List FieldValidator}

/-- The message is tame, or it is about a customer id that is wrong. -/
theorem validateFields_tame_or_quotes
    (hfields : ∀ f ∈ fields, f.Cautious J)
    (hpassed : validateFields J root passed ⟨1024, []⟩ = (true, err)) (H : err.Tame) :
    (validateFields J root fields err).2.Tame ∨
      ∃ id, QuotesId J (passed ++ fields) root id := by
  induction fields generalizing passed err with
  | nil => exact .inl H
  | cons f fields ih =>
    obtain ⟨hf, hfields⟩ := List.forall_mem_cons.mp hfields
    have hfield : (validateField J root f err).2.Tame ∨
        ∃ id, QuotesId J (passed ++ f :: fields) root id := by
      obtain hf | ⟨name, rfl, hname⟩ := hf
      · exact .inl (hf.tame H)
      · obtain h | ⟨s, hs, hlen, hne, hid⟩ := validateField_customerId J root hname H
        · exact .inl h
        · exact .inr ⟨_, passed, name, fields, s, rfl, by rw [hpassed], hs, hlen, rfl, hne, hid⟩
    obtain hfield | hquotes := hfield
    · rw [validateFields]
      cases hv : validateField J root f err with
      | mk ok err' =>
        rw [hv] at hfield
        cases ok with
        | false => exact .inl hfield
        | true =>
          have hnext : validateFields J root (passed ++ [f]) ⟨1024, []⟩ = (true, err') := by
            rw [validateFields_append, hpassed]
            simp only [validateFields, hv]
          obtain h | ⟨id, h⟩ := ih hfields hnext hfield
          · exact .inl h
          · exact .inr ⟨id, by rwa [List.append_assoc] at h⟩
    · exact .inr hquotes

theorem validateFields_passed
    (hfields : ∀ f ∈ fields, f.Cautious J)
    (H : err.Tame) (h : (validateFields J root fields err).1 = true) :
    (validateFields J root fields err).2.Tame := by
  induction fields generalizing err with
  | nil => exact H
  | cons f fields ih =>
    obtain ⟨hf, hfields⟩ := List.forall_mem_cons.mp hfields
    have hfield : (validateField J root f err).1 = true → (validateField J root f err).2.Tame := by
      intro hpass
      obtain hf | ⟨name, rfl, hname⟩ := hf
      · exact hf.tame H
      · obtain htame | ⟨s, hs, hlen, hne, hid⟩ := validateField_customerId J root hname H
        · exact htame
        · rw [validateField_quotes hs hlen hne hid] at hpass
          cases hpass
    rw [validateFields] at h ⊢
    cases hv : validateField J root f err with
    | mk ok err' =>
      rw [hv] at h hfield
      cases ok with
      | false => cases h
      | true => exact ih hfields (hfield rfl) h

/-- A customer id that is wrong is the text of the refusal. -/
theorem validateJson_quotes {ctx : ValidationContext} {id : Bytes} (hctx : ctx.Cautious J)
    (hquotes : QuotesId J ctx.schema root id) :
    (validateJson J ctx root ⟨1024, []⟩).2.text = snprintf 1024 (idMessage id) := by
  obtain ⟨before, name, after, s, hschema, hbefore, hs, hlen, rfl, hne, hid⟩ := hquotes
  have hfields : ∀ f ∈ before, f.Cautious J := by
    intro f hf
    exact hctx.fields f (by rw [hschema]; exact List.mem_append_left _ hf)
  have htame := @validateFields_passed J root ⟨1024, []⟩ before hfields ⟨rfl, by decide⟩ hbefore
  have hfailed : validateFields J root ctx.schema ⟨1024, []⟩ =
      (false, (validateFields J root before ⟨1024, []⟩).2.print (idMessage (cstr s))) := by
    rw [hschema, validateFields_append]
    cases hv : validateFields J root before ⟨1024, []⟩ with
    | mk ok err =>
      rw [hv] at hbefore
      cases hbefore
      simp only [validateFields, validateField_quotes hs hlen hne hid]
  cases root with
  | object ms =>
    rw [validateJson, if_neg (by decide)]
    simp only [hfailed]
    rw [ErrBuf.print, htame.size]
  | _ => cases hs

/-- On a payload that is refused the message can be quoted unless it repeats a customer id that
cannot. -/
theorem validateJson_quotable_iff {ctx : ValidationContext} (hctx : ctx.Cautious J) :
    Quotable (validateJson J ctx root ⟨1024, []⟩).2.text ↔
      ∀ id, QuotesId J ctx.schema root id → Plain id ∧ id.length ≤ 983 := by
  constructor
  · intro h id hquotes
    rw [validateJson_quotes hctx hquotes] at h
    exact (quotable_idMessage id).mp h
  · intro h
    have hstart : ErrBuf.Tame ⟨1024, []⟩ := ⟨rfl, by decide⟩
    by_cases hquotes : ∃ id, QuotesId J ctx.schema root id
    · obtain ⟨id, hquotes⟩ := hquotes
      rw [validateJson_quotes hctx hquotes, quotable_idMessage]
      exact h id hquotes
    · obtain htame | hid :=
        @validateFields_tame_or_quotes J root ⟨1024, []⟩ ctx.schema [] hctx.fields rfl hstart
      · unfold validateJson
        rw [if_neg (by decide)]
        cases root with
        | object ms =>
          dsimp only
          cases hv : validateFields J (.object ms) ctx.schema ⟨1024, []⟩ with
          | mk ok err =>
            rw [hv] at htame
            cases ok with
            | false => exact htame.text
            | true => exact (runCustom_tame hctx.global htame).text
        | _ => exact (hstart.print (by decide)).text
      · exact absurd hid hquotes

end

/-! ## The routes -/

section
variable {J : JsonC}

theorem validateSalesYear_tame {tooFar : Int → Bool} {message : String}
    (h : Quotable (bytes message)) : TameValidator (validateSalesYear J tooFar message) := by
  intro obj err H
  unfold validateSalesYear
  split
  · split
    · exact H.print h
    · exact H
  · exact H

theorem salesInvariantValidator_tame : TameValidator (salesInvariantValidator J) := by
  intro root err H
  unfold salesInvariantValidator
  split
  · split
    · exact H.print (by decide)
    · exact H
  · exact H

theorem totpCustomValidator_tame : TameValidator (totpCustomValidator J) := by
  intro obj err H
  unfold totpCustomValidator
  split
  · exact H.print (by decide)
  · split
    · exact H.print (by decide)
    split
    · exact H.print (by decide)
    · exact H

theorem harmless_of_name {f : FieldValidator} (hname : ShortName f.fieldName)
    (hcustom : f.customValidator.isNone) : f.Harmless := by
  refine ⟨hname, fun v hv => ?_⟩
  rw [hv] at hcustom
  cases hcustom

/-- A schema without validators of the application. -/
theorem cautious_of_names {ctx : ValidationContext}
    (hfields : ∀ f ∈ ctx.schema, ShortName f.fieldName ∧ f.customValidator.isNone)
    (hglobal : ctx.globalValidator.isNone) : ctx.Cautious J := by
  refine ⟨fun f hf => .inl (harmless_of_name (hfields f hf).1 (hfields f hf).2), fun g hg => ?_⟩
  rw [hg] at hglobal
  cases hglobal

theorem customerContext_cautious : (customerContext J).Cautious J := by
  refine ⟨?_, nofun⟩
  rw [customerContext, List.forall_mem_singleton]
  exact .inr ⟨"id", rfl, by decide⟩

theorem coordinatorContext_cautious : (coordinatorContext J).Cautious J := by
  refine ⟨?_, nofun⟩
  rw [coordinatorContext, List.forall_mem_cons, List.forall_mem_singleton]
  exact ⟨.inl (harmless_of_name (by decide) rfl),
    .inr ⟨"customer_id", rfl, by decide⟩⟩

theorem verifyTotpContext_cautious : (verifyTotpContext J).Cautious J := by
  refine ⟨?_, nofun⟩
  rw [verifyTotpContext, List.forall_mem_singleton]
  refine .inl ⟨show ShortName (bytes "totp") by decide, ?_⟩
  rintro _ ⟨⟩
  exact totpCustomValidator_tame

theorem salesContext_cautious : (salesContext J).Cautious J := by
  refine ⟨?_, ?_⟩
  · rw [salesContext, List.forall_mem_cons, List.forall_mem_singleton]
    refine ⟨.inl ⟨show ShortName (bytes "start_date") by decide, ?_⟩,
      .inl ⟨show ShortName (bytes "end_date") by decide, ?_⟩⟩
    · rintro _ ⟨⟩
      exact validateSalesYear_tame (by decide)
    · rintro _ ⟨⟩
      exact validateSalesYear_tame (by decide)
  · rintro _ ⟨⟩
    exact salesInvariantValidator_tame

/-- The customer id is the only text of a payload that a route repeats. -/
theorem gRoutes_cautious {ctx : MiddlewareCtx Handler} (hctx : ctx ∈ gRoutes J)
    {v : ValidationContext} (h : ctx.validationCtx = some v) : v.Cautious J := by
  have hlogin : loginContext.Cautious J := cautious_of_names (by decide) rfl
  have hemployee : employeeContext.Cautious J := cautious_of_names (by decide) rfl
  have hprodget : prodgetContext.Cautious J := cautious_of_names (by decide) rfl
  have hsupplier : supplierContext.Cautious J := cautious_of_names (by decide) rfl
  have hcustomers : customersContext.Cautious J := cautious_of_names (by decide) rfl
  have hupload : uploadContext.Cautious J := cautious_of_names (by decide) rfl
  have hgasto : gastoContext.Cautious J := cautious_of_names (by decide) rfl
  have hdummy : dummyContext.Cautious J := cautious_of_names (by decide) rfl
  have hall : ∀ ctx ∈ gRoutes J, ∀ v, ctx.validationCtx = some v → v.Cautious J := by
    simp [gRoutes, route, customerContext_cautious, coordinatorContext_cautious,
      verifyTotpContext_cautious, salesContext_cautious, *]
  exact hall ctx hctx v h

end

/-! ## The three checks -/

section
variable {H : Type} (S : Sodium) (J : JsonC) (K : Tokener) (secret : Bytes)

/-- The payload as json-c reads it. -/
def payloadBody (task : HttpTask H) : Option Json :=
  if task.req.command ≠ .post then task.parsedBody
  else (parseInput K task.parsedBody task.req.inputBuffer).2

theorem plain_jwtMessage (now : Int) (req : Request) :
    Plain (bytes (jwtMessage S J secret now req)) := by
  unfold jwtMessage
  split
  · exact plain_ofList (by decide)
  split
  · exact plain_ofList (by decide)
  split <;> exact plain_ofList (by decide)

theorem plain_payloadMessage (tokenerNew : Bool) (req : Request) :
    Plain (bytes (payloadMessage tokenerNew req)) := by
  unfold payloadMessage
  split
  · exact plain_ofList (by decide)
  split
  · exact plain_ofList (by decide)
  split <;> exact plain_ofList (by decide)

/-- The request and the payload as they were, and the output with the reply of a check that fails. -/
structure Checked (w w' : WorkerState H) (reply : Bytes) : Prop where
  req : w'.task.req = w.task.req
  parsedBody : w'.task.parsedBody = w.task.parsedBody
  workerBuf : w'.task.workerBuf = w.task.workerBuf ++ reply

variable {w w₁ w' : WorkerState H} {ctx : MiddlewareCtx H}

theorem workerProcessJwt_checked {now : Int} {ok : Bool} {ctx : Option (MiddlewareCtx H)}
    (h : workerProcessJwt S J secret now w ctx = (ok, w')) :
    Checked w w' (if ok then [] else errorReply (bytes (jwtMessage S J secret now w.task.req))) := by
  obtain ⟨ok', set, task', hcheck, heq⟩ := workerProcessJwt_check S J secret now w.task ctx
  cases (heq w.tls).symm.trans h
  cases hcheck with
  | skipped => exact ⟨rfl, rfl, (List.append_nil _).symm⟩
  | refused kept hkept => obtain rfl | ⟨res, rfl⟩ := hkept <;> exact ⟨rfl, rfl, rfl⟩
  | accepted _ _ _ _ hknown =>
    subst hknown
    exact ⟨rfl, rfl, (List.append_nil _).symm⟩

theorem workerProcessPayload_kept {tokenerNew : Bool}
    (h : workerProcessPayload K tokenerNew w = (true, w')) :
    w'.task.workerBuf = w.task.workerBuf ∧ w'.task.parsedBody = payloadBody K w.task := by
  obtain ⟨ok, task', hcheck, heq⟩ := workerProcessPayload_check K tokenerNew w.task
  cases (heq w.tls).symm.trans h
  cases hcheck with
  | skipped hcommand => exact ⟨rfl, (if_pos hcommand).symm⟩
  | read hcommand => exact ⟨rfl, (if_neg (not_not.mpr hcommand)).symm⟩

theorem workerProcessPayload_refused {tokenerNew : Bool}
    (h : workerProcessPayload K tokenerNew w = (false, w')) :
    w'.task.workerBuf =
      w.task.workerBuf ++ errorReply (bytes (payloadMessage tokenerNew w.task.req)) := by
  obtain ⟨ok, task', hcheck, heq⟩ := workerProcessPayload_check K tokenerNew w.task
  cases (heq w.tls).symm.trans h
  cases hcheck
  rfl

/-- The check of the payload does not depend on what the check of the token has written. -/
theorem Checked.workerProcessPayload {reply : Bytes} (h : Checked w w₁ reply) (tokenerNew : Bool) :
    (workerProcessPayload K tokenerNew w₁).1 = (workerProcessPayload K tokenerNew w).1 := by
  obtain ⟨ok, task, hcheck, heq⟩ := workerProcessPayload_check K tokenerNew w.task
  obtain ⟨ok₁, task₁, hcheck₁, heq₁⟩ := workerProcessPayload_check K tokenerNew w₁.task
  rw [show ApiServer.workerProcessPayload K tokenerNew w = _ from heq w.tls,
    show ApiServer.workerProcessPayload K tokenerNew w₁ = _ from heq₁ w₁.tls]
  have hpasses := hcheck.passes_iff
  rw [← h.req, ← h.parsedBody, ← hcheck₁.passes_iff] at hpasses
  exact (Bool.eq_iff_iff.mpr hpasses).symm

theorem workerProcessValidation_refused (h : workerProcessValidation J w (some ctx) = (false, w')) :
    ∃ v body, ctx.validationCtx = some v ∧ w.task.parsedBody = some body ∧
      w'.task.workerBuf = w.task.workerBuf ++
        snprintf 1024 (errorReply (validateJson J v body ⟨1024, []⟩).2.text) := by
  obtain ⟨ok, task', hcheck, heq⟩ := workerProcessValidation_check J w.task (some ctx)
  cases (heq w.tls).symm.trans h
  cases hcheck with
  | refused hv hbody => exact ⟨_, _, hv, hbody, rfl⟩

/-! ## Refused requests -/

/-- The processing of a request ends in one of the three checks, with its message. -/
inductive Refused (env : WorkerEnv) (ctx : MiddlewareCtx H) (w : WorkerState H) :
    WorkerState H → Bytes → Prop
  | jwt {w' : WorkerState H} (hjwt : workerProcessJwt S J secret env.now w (some ctx) = (false, w')) :
    Refused env ctx w w' (bytes (jwtMessage S J secret env.now w.task.req))
  | payload {w₁ w' : WorkerState H}
    (hjwt : workerProcessJwt S J secret env.now w (some ctx) = (true, w₁))
    (hpayload : workerProcessPayload K env.tokenerNew w₁ = (false, w')) :
    Refused env ctx w w' (bytes (payloadMessage env.tokenerNew w.task.req))
  | validation {w₁ w₂ w' : WorkerState H} {v : ValidationContext} {body : Json}
    (hjwt : workerProcessJwt S J secret env.now w (some ctx) = (true, w₁))
    (hpayload : workerProcessPayload K env.tokenerNew w₁ = (true, w₂))
    (hvalidation : workerProcessValidation J w₂ (some ctx) = (false, w'))
    (hv : ctx.validationCtx = some v) (hbody : w₂.task.parsedBody = some body) :
    Refused env ctx w w' (validateJson J v body ⟨1024, []⟩).2.text

theorem Refused.workerHandle {env : WorkerEnv} {msg : Bytes}
    (exec : H → Option Json → HandlerState → HandlerState) (hw : w.task.middlewareCtx = some ctx)
    (h : Refused S J K secret env ctx w w' msg) :
    workerHandle S J K secret exec env w = (w', none) := by
  unfold ApiServer.workerHandle
  cases h with
  | jwt hjwt => simp only [hw, hjwt]
  | payload hjwt hpayload => simp only [hw, hjwt, hpayload]
  | validation hjwt hpayload hvalidation => simp only [hw, hjwt, hpayload, hvalidation]

/-- The request passes the first two checks, and `body` is what the third one looks at. -/
structure Receives (env : WorkerEnv) (ctx : MiddlewareCtx H) (w : WorkerState H) (body : Json) :
    Prop where
  jwt : (workerProcessJwt S J secret env.now w (some ctx)).1 = true
  payload : (workerProcessPayload K env.tokenerNew w).1 = true
  body : payloadBody K w.task = some body

/-- The reply to a refused request is JSON, with the message as its error, unless the message repeats
a customer id that has to be escaped or that is too long. -/
theorem refused_reply_iff (exec : Handler → Option Json → HandlerState → HandlerState)
    {ctx : MiddlewareCtx Handler} (hctx : ctx ∈ gRoutes J) {w w' : WorkerState Handler}
    (hw : w.task.middlewareCtx = some ctx) {env : WorkerEnv} {msg : Bytes}
    (h : Refused S J K secret env ctx w w' msg) :
    workerHandle S J K secret exec env w = (w', none) ∧
    ∃ reply, w'.task.workerBuf = w.task.workerBuf ++ reply ∧
      (Says reply msg ↔ ∀ v body id, ctx.validationCtx = some v →
        Receives S J K secret env ctx w body → QuotesId J v.schema body id →
          Plain id ∧ id.length ≤ 983) := by
  refine ⟨h.workerHandle S J K secret exec hw, ?_⟩
  cases h with
  | jwt hjwt =>
    have hbuf := (workerProcessJwt_checked S J secret hjwt).workerBuf
    refine ⟨_, hbuf, fun _ _ _ _ _ hreceives => ?_, fun _ => ?_⟩
    · have hpass := hreceives.jwt
      rw [hjwt] at hpass
      cases hpass
    · exact says_errorReply (plain_jwtMessage S J secret env.now w.task.req)
  | @payload w₁ _ hjwt hpayload =>
    have hchecked := workerProcessJwt_checked S J secret hjwt
    have hbuf := workerProcessPayload_refused K hpayload
    rw [hchecked.workerBuf, hchecked.req, if_pos rfl, List.append_nil] at hbuf
    refine ⟨_, hbuf, fun _ _ _ _ _ hreceives => ?_, fun _ => ?_⟩
    · have hpass := hreceives.payload
      rw [← hchecked.workerProcessPayload, hpayload] at hpass
      cases hpass
    · exact says_errorReply (plain_payloadMessage env.tokenerNew w.task.req)
  | @validation w₁ w₂ _ v body hjwt hpayload hvalidation hv hbody =>
    have hchecked := workerProcessJwt_checked S J secret hjwt
    obtain ⟨hbuf₂, hbody₂⟩ := workerProcessPayload_kept K hpayload
    obtain ⟨v', body', hv', hbody', hbuf⟩ := workerProcessValidation_refused J hvalidation
    obtain rfl : v = v' := Option.some.inj (hv.symm.trans hv')
    obtain rfl : body = body' := Option.some.inj (hbody.symm.trans hbody')
    rw [hbuf₂, hchecked.workerBuf, if_pos rfl, List.append_nil] at hbuf
    have hpayloadBody : payloadBody K w.task = some body := by
      rw [← hbody, hbody₂, payloadBody, payloadBody, hchecked.req, hchecked.parsedBody]
    have hreceives : Receives S J K secret env ctx w body :=
      ⟨by rw [hjwt], by rw [← hchecked.workerProcessPayload, hpayload], hpayloadBody⟩
    refine ⟨_, hbuf, ?_⟩
    rw [says_snprintf_iff, validateJson_quotable_iff (gRoutes_cautious hctx hv)]
    constructor
    · intro hids v' body' id hv' hreceives' hquotes
      obtain rfl : v = v' := Option.some.inj (hv.symm.trans hv')
      obtain rfl : body = body' := Option.some.inj (hpayloadBody.symm.trans hreceives'.body)
      exact hids id hquotes
    · intro hids id hquotes
      exact hids v body id hv hreceives hquotes

end

def customerRoute : MiddlewareCtx Handler :=
  route "/customer" .post (some (customerContext .reference)) .customer true .jwt

/-- A request for the customer with this id, written as it stands in the payload. -/
def customerWorker (text : Bytes) : WorkerState Handler where
  tls := {}
  task :=
    { req :=
        { command := .post
          uri := bytes "/customer"
          inputHeaders := [(bytes "Content-Type", bytes "application/json"), (bytes "Authorization",
            bytes "Bearer " ++ signedToken .reference (.replicate 32 7) jwtHeader
              (userPayload (bytes "ann")))]
          inputBuffer := [bytes "\x7b\"id\":\"" ++ text ++ bytes "\"\x7d"] }
      middlewareCtx := some customerRoute }

/-- The request once its token is accepted. -/
def authorizedWorker (text : Bytes) : WorkerState Handler where
  tls := contextSet {} (some (bytes "ann")) (some (bytes "s-1")) (some []) (some [])
  task := { (customerWorker text).task with
    username := .strlcpy 33 (bytes "ann"), sessionId := .strlcpy 37 (bytes "s-1") }

theorem workerProcessJwt_customerWorker (text : Bytes) :
    workerProcessJwt .reference .reference (.replicate 32 7) 9 (customerWorker text)
      (some customerRoute) = (true, authorizedWorker text) := by
  have hver : jwtVerify .reference .reference (.replicate 32 7) 9
      (signedToken .reference (.replicate 32 7) jwtHeader (userPayload (bytes "ann"))) (some 33)
      (some 37) =
        { status := .ok, username := some (bytes "ann"), sessionId := some (bytes "s-1") } :=
    (jwtVerify_signed Sodium.reference_lawful (by decide)).2
  have hfind : evhttpFindHeader (customerWorker text).task.req.inputHeaders (bytes "Authorization") =
      some (bytes "Bearer " ++ signedToken .reference (.replicate 32 7) jwtHeader
        (userPayload (bytes "ann"))) := by
    refine congrArg some (cstr_eq_self fun h => (List.mem_append.mp h).elim (by decide) ?_)
    exact zero_notMem_signedToken Sodium.reference_lawful _ _ _
  rw [workerProcessJwt_signed (show customerRoute.authMode = .jwt from rfl) hfind (by rw [hver]), hver]
  rfl

def customerPayload (id : Bytes) : Json := .object [(bytes "id", .string id)]

/-- The request once its payload is read. -/
def receivedWorker (text id : Bytes) : WorkerState Handler :=
  { authorizedWorker text with
    task := { (authorizedWorker text).task with parsedBody := some (customerPayload id) } }

/-- The task of a request that is refused with this message. -/
def refusedTask (text id msg : Bytes) : HttpTask Handler :=
  (receivedWorker text id).task.refuse 400 (bytes "Bad Request") (snprintf 1024 (errorReply msg))

theorem workerProcessValidation_invalid {H : Type} {J : JsonC} {w : WorkerState H}
    {ctx : Option (MiddlewareCtx H)} {v : ValidationContext} {body : Json} {err : ErrBuf}
    (hctx : ctx.bind (·.validationCtx) = some v) (hbody : w.task.parsedBody = some body)
    (hinvalid : validateJson J v body ⟨1024, []⟩ = (false, err)) :
    workerProcessValidation J w ctx =
      (false, { w with
        task := w.task.refuse 400 (bytes "Bad Request")
          (snprintf 1024 (errorReply err.text)) }) := by
  rw [workerProcessValidation, hctx, hbody]
  simp only [hinvalid]
  rfl

theorem customerWorker_refused {text id msg : Bytes}
    (hpayload : workerProcessPayload .reference true (authorizedWorker text) =
      (true, receivedWorker text id))
    (hmsg : validateJson .reference (customerContext .reference) (customerPayload id) ⟨1024, []⟩ =
      (false, ⟨1024, msg⟩)) :
    Refused .reference .reference .reference (.replicate 32 7) ⟨9, true⟩ customerRoute
      (customerWorker text) ⟨(receivedWorker text id).tls, refusedTask text id msg⟩ msg := by
  have hvalidation : workerProcessValidation .reference (receivedWorker text id) (some customerRoute) =
      (false, ⟨(receivedWorker text id).tls, refusedTask text id msg⟩) :=
    workerProcessValidation_invalid rfl rfl hmsg
  have hrefused : Refused .reference .reference .reference (.replicate 32 7) ⟨9, true⟩ customerRoute
      (customerWorker text) _ _ :=
    .validation (workerProcessJwt_customerWorker text) hpayload hvalidation rfl rfl
  rwa [hmsg] at hrefused

/-- A reply that repeats an id of two letters. -/
theorem refused_reply_iff_short :
    ∃ w', w'.task.workerBuf =
        bytes "\x7b\"error\":\"Invalid customer ID format: AB\"\x7d" ∧
      workerHandle .reference .reference .reference (.replicate 32 7) (fun _ _ st => st) ⟨9, true⟩
        (customerWorker (bytes "AB")) = (w', none) ∧
      ∃ reply, w'.task.workerBuf = (customerWorker (bytes "AB")).task.workerBuf ++ reply ∧
        (Says reply (bytes "Invalid customer ID format: AB") ↔
          ∀ v body id, customerRoute.validationCtx = some v →
            Receives .reference .reference .reference (.replicate 32 7) ⟨9, true⟩ customerRoute
              (customerWorker (bytes "AB")) body →
            QuotesId .reference v.schema body id → Plain id ∧ id.length ≤ 983) := by
  refine ⟨⟨_, refusedTask (bytes "AB") (bytes "AB") (bytes "Invalid customer ID format: AB")⟩, rfl,
    refused_reply_iff .reference .reference .reference (.replicate 32 7) _ ?_ rfl
      (customerWorker_refused rfl rfl)⟩
  exact List.mem_of_getElem? (i := 5) rfl

/-- An id that is one quotation mark ends the string, and the reply is no JSON. -/
theorem quoted_id_breaks_reply :
    customerRoute ∈ gRoutes .reference ∧
    ∃ w', Refused .reference .reference .reference (.replicate 32 7) ⟨9, true⟩ customerRoute
        (customerWorker (bytes "\\\"")) w' (bytes "Invalid customer ID format: \"") ∧
      w'.task.workerBuf = bytes "\x7b\"error\":\"Invalid customer ID format: \"\"\x7d" ∧
      Json.parse w'.task.workerBuf = none := by
  refine ⟨List.mem_of_getElem? (i := 5) rfl, ⟨_, refusedTask (bytes "\\\"") (bytes "\"")
    (bytes "Invalid customer ID format: \"")⟩, customerWorker_refused rfl rfl, rfl, rfl⟩

end ApiServer
