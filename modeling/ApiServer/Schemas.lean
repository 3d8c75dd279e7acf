import ApiServer.Validation

/-!
# The schemas of the endpoints (`src/handlers.c`)
-/

namespace ApiServer
open Bytes

section
variable (J : JsonC)

def customerIdValidator : CustomValidatorFunc := fun obj err =>
  match (J.getString obj).map cstr with
  | none => (false, err.print (bytes "Invalid customer ID format: null"))
  | some id =>
    if id.length ≠ 5 then (false, err.print (bytes "Invalid customer ID format: " ++ id))
    else if id.any fun c => !isAlpha c then
      (false, err.print (bytes "Invalid customer ID character: " ++ id))
    else (true, err)

/-- The source passes both strings to `strcmp` unchecked; a missing one has no verdict here. -/
def salesInvariantValidator : CustomValidatorFunc := fun root err =>
  match jsonGetString J root (bytes "start_date"), jsonGetString J root (bytes "end_date") with
  | some startStr, some endStr =>
    if strcmp startStr endStr ≥ 0 then
      (false, err.print (bytes "Start date must strictly precede end date"))
    else (true, err)
  | _, _ => (false, err)

/-- The family of the two year limits of the sales schema. -/
def validateSalesYear (tooFar : Int → Bool) (message : String) : CustomValidatorFunc :=
  fun obj err =>
    match (J.getString obj).map cstr with
    | some dateStr =>
      if tooFar (cInt (strtol dateStr)) then (false, err.print (bytes message)) else (true, err)
    | none => (false, err)

def validateSalesStartDate : CustomValidatorFunc :=
  validateSalesYear J (· ≤ 1993) "Start date is too early (min 1994)"

def validateSalesEndDate : CustomValidatorFunc :=
  validateSalesYear J (· ≥ 1997) "End date is too late (max 1996)"

def totpCustomValidator : CustomValidatorFunc := fun obj err =>
  match (J.getString obj).map cstr with
  | none => (false, err.print (bytes "Field 'totp' must be exactly 6 characters."))
  | some totp =>
    if totp.length ≠ 6 then (false, err.print (bytes "Field 'totp' must be exactly 6 characters."))
    else if totp.any fun c => !isDigit c then
      (false, err.print (bytes "Field 'totp' must contain only digits."))
    else (true, err)

/-- A required integer that is at least one. -/
def positiveId (name : String) : FieldValidator :=
  { fieldName := bytes name, type := .int, isRequired := true, hasMin := true, minInt := 1 }

/-- A required string of at most `maxLen` characters. -/
def requiredText (name : String) (maxLen : Nat) : FieldValidator :=
  { fieldName := bytes name, type := .string, isRequired := true, maxLen }

def customerContext : ValidationContext where
  schema := [{ requiredText "id" 5 with customValidator := some (customerIdValidator J) }]

def salesContext : ValidationContext where
  schema := [
    { fieldName := bytes "start_date", type := .date, isRequired := true,
      customValidator := some (validateSalesStartDate J) },
    { fieldName := bytes "end_date", type := .date, isRequired := true,
      customValidator := some (validateSalesEndDate J) }]
  globalValidator := some (salesInvariantValidator J)

def verifyTotpContext : ValidationContext where
  schema := [{ requiredText "totp" 6 with customValidator := some (totpCustomValidator J) }]

def coordinatorContext : ValidationContext where
  schema := [positiveId "gasto_id",
    { requiredText "customer_id" 5 with customValidator := some (customerIdValidator J) }]

end

def loginContext : ValidationContext where
  schema := [requiredText "username" 32, requiredText "password" 32]

def employeeContext : ValidationContext where
  schema := [{ positiveId "id" with hasMax := true, maxInt := 9 }]

def prodgetContext : ValidationContext where
  schema := [positiveId "id"]

def supplierContext : ValidationContext where
  schema := [positiveId "id"]

def customersContext : ValidationContext where
  schema := [{ fieldName := bytes "filter", type := .string, maxLen := 10 }]

def uploadContext : ValidationContext where
  schema := [requiredText "filename" 250, requiredText "content_type" 250,
    requiredText "title" 250, requiredText "blob" 0]

def gastoContext : ValidationContext where
  schema := [positiveId "id"]

def dummyContext : ValidationContext where
  schema := [{ fieldName := bytes "id", type := .int, isRequired := true }]

end ApiServer
