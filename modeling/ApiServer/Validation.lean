import ApiServer.JsonC

/-!
# Schema validation (`lib/validation.c`)

A schema is a list of field validators; `validateJson` runs them in order over the payload and
stops at the first that fails, leaving its message in the error buffer.
-/

namespace ApiServer
open Bytes

inductive ErrorCode where
  | required | notInt | notDouble | notString | notDate | invalidDate | unknownType
  | tooLong | tooSmall | tooLarge | maxErrors
  deriving DecidableEq

inductive FieldType where
  | int | double | string | date | maxTypes
  deriving DecidableEq

/-- An error buffer: its size and the C string it holds. -/
structure ErrBuf where
  size : Nat
  text : Bytes

def ErrBuf.print (err : ErrBuf) (text : Bytes) :
    ErrBuf := { err with text := snprintf err.size text }

/-- A validator written by the application: the verdict and the buffer after the call. -/
abbrev CustomValidatorFunc := Json → ErrBuf → Bool × ErrBuf

structure FieldValidator where
  fieldName : Bytes
  type : FieldType
  customValidator : Option CustomValidatorFunc := none
  minInt : Int := 0
  minDbl : Dbl := .fin (.ofRat 0)
  maxLen : Nat := 0
  maxInt : Int := 0
  maxDbl : Dbl := .fin (.ofRat 0)
  isRequired : Bool := false
  hasMin : Bool := false
  hasMax : Bool := false

structure ValidationContext where
  schema : List FieldValidator
  globalValidator : Option CustomValidatorFunc := none

/-- The message of a validation error. -/
def ErrorCode.message (code : ErrorCode) (arg : Bytes) : Bytes :=
  let field (rest : String) := bytes "Field '" ++ arg ++ bytes rest
  match code with
  | .required => field "' is required."
  | .notInt => field "' must be an integer."
  | .notDouble => field "' must be a numeric decimal (double)."
  | .notString => field "' must be a string."
  | .notDate => field "' must be a date string."
  | .invalidDate => field "' contains an invalid date format or calendar lie."
  | .unknownType => bytes "Internal error: Unknown validation type configured."
  | .tooLong => field "' exceeds maximum allowed length."
  | .tooSmall => field "' is below minimum allowed value."
  | .tooLarge => field "' exceeds maximum allowed value."
  | .maxErrors => bytes "Unknown error code: 10"

def emitError (err : ErrBuf) (code : ErrorCode) (arg : Bytes) : Bool × ErrBuf :=
  if err.size = 0 then (false, err) else (false, err.print (code.message arg))

@[simp] theorem emitError_fst : (emitError err code arg).1 = false := by
  unfold emitError; split <;> rfl

/-! ## Type validators -/

/-- The byte at an index of a C string, its NUL included. -/
def byteAt (s : Bytes) (i : Nat) : UInt8 := s.getD i 0

def digitAt (s : Bytes) (i : Nat) : Nat := (byteAt s i).toNat - 48

def daysInMonth (year month : Nat) : Nat :=
  let maxDays := [0, 31, 28, 31, 30, 31, 30, 31, 31, 30, 31, 30, 31].getD month 0
  if month = 2 then
    if year % 4 = 0 ∧ (year % 100 ≠ 0 ∨ year % 400 = 0) then 29 else maxDays
  else maxDays

def validateDateStringFast (s : Bytes) : Bool :=
  if (List.range 10).any fun i => byteAt s i == 0 then false
  else if byteAt s 10 ≠ 0 then false
  else if (List.range 10).any fun i =>
      if i = 4 ∨ i = 7 then byteAt s i != 45 else byteAt s i < 48 || 57 < byteAt s i then false
  else
    let year := digitAt s 0 * 1000 + digitAt s 1 * 100 + digitAt s 2 * 10 + digitAt s 3
    let month := digitAt s 5 * 10 + digitAt s 6
    let day := digitAt s 8 * 10 + digitAt s 9
    if month < 1 ∨ 12 < month ∨ day < 1 ∨ year < 1900 ∨ 2199 < year then false
    else day ≤ daysInMonth year month

/-- The number of bytes of a C string that do not continue a UTF-8 sequence. -/
def utf8Strlen (s : Bytes) : Nat := (cstr s).countP fun c => c &&& 0xC0 != 0x80

section
variable (J : JsonC)

def validateTypeInt (obj : Json) (field : FieldValidator) (err : ErrBuf) : Bool × ErrBuf :=
  match obj with
  | .int _ =>
    let val := J.getInt obj
    if field.hasMin ∧ val < field.minInt then emitError err .tooSmall field.fieldName
    else if field.hasMax ∧ val > field.maxInt then emitError err .tooLarge field.fieldName
    else (true, err)
  | _ => emitError err .notInt field.fieldName

def validateTypeDouble (obj : Json) (field : FieldValidator) (err : ErrBuf) : Bool × ErrBuf :=
  match obj with
  | .double _ | .int _ =>
    match J.getDouble obj with
    | .nan | .inf _ => emitError err .notDouble field.fieldName
    | val =>
      if field.hasMin ∧ val.lt field.minDbl then emitError err .tooSmall field.fieldName
      else if field.hasMax ∧ field.maxDbl.lt val then emitError err .tooLarge field.fieldName
      else (true, err)
  | _ => emitError err .notDouble field.fieldName

def validateTypeString (obj : Json) (field : FieldValidator) (err : ErrBuf) : Bool × ErrBuf :=
  match obj with
  | .string s =>
    -- the byte length decides first, the character count only when it exceeds the limit
    if 0 < field.maxLen ∧ cInt field.maxLen < s.length ∧ field.maxLen < utf8Strlen s then
      emitError err .tooLong field.fieldName
    else (true, err)
  | _ => emitError err .notString field.fieldName

def validateTypeDate (obj : Json) (field : FieldValidator) (err : ErrBuf) : Bool × ErrBuf :=
  match obj with
  | .string s =>
    if validateDateStringFast (cstr s) then (true, err)
    else emitError err .invalidDate field.fieldName
  | _ => emitError err .notDate field.fieldName

/-- `TYPE_VALIDATOR_MAP`, with the guard against an unknown type in front of it. -/
def validateType (obj : Json) (field : FieldValidator) (err : ErrBuf) : Bool × ErrBuf :=
  match field.type with
  | .int => validateTypeInt J obj field err
  | .double => validateTypeDouble J obj field err
  | .string => validateTypeString obj field err
  | .date => validateTypeDate obj field err
  | .maxTypes => emitError err .unknownType []

/-! ## The engine -/

def checkFieldEmpty : Json → Bool
  | .string s => cstr s == []
  | .array elems => elems.isEmpty
  | .object ms => ms.isEmpty
  | _ => false

def runCustom (v : Option CustomValidatorFunc) (obj : Json) (err : ErrBuf) : Bool × ErrBuf :=
  match v with
  | some f => f obj err
  | none => (true, err)

/-- One turn of the loop over the schema; `none` when the field is absent or null. -/
def validateField (root : Json) (field : FieldValidator) (err : ErrBuf) : Bool × ErrBuf :=
  match objectGetEx root field.fieldName with
  | none | some .null =>
    if field.isRequired then emitError err .required field.fieldName else (true, err)
  | some obj =>
    if field.isRequired ∧ checkFieldEmpty obj then emitError err .required field.fieldName
    else
      match validateType J obj field err with
      | (false, err) => (false, err)
      | (true, err) => runCustom field.customValidator obj err

def validateFields (root : Json) : List FieldValidator → ErrBuf → Bool × ErrBuf
  | [], err => (true, err)
  | field :: fields, err =>
    match validateField J root field err with
    | (false, err) => (false, err)
    | (true, err) => validateFields root fields err

def validateJson (ctx : ValidationContext) (root : Json) (err : ErrBuf) : Bool × ErrBuf :=
  if err.size = 0 then (false, err)
  else
    match root with
    | .object _ =>
      match validateFields J root ctx.schema err with
      | (false, err) => (false, err)
      | (true, err) => runCustom ctx.globalValidator root err
    | _ => (false, err.print (bytes "Payload must be a JSON object."))

/-! ## Reading a payload -/

def jsonGetString (obj : Json) (key : Bytes) : Option Bytes :=
  (objectGetEx obj key).bind J.getString |>.map cstr

/-- `json_get_string_ex`: the bytes with their length, an embedded NUL included. -/
def jsonGetStringEx (obj : Json) (key : Bytes) : Option Bytes :=
  (objectGetEx obj key).bind J.getString

def jsonGetInt (obj : Json) (key : Bytes) : Int :=
  match objectGetEx obj key with
  | some val => J.getInt64 val
  | none => 0

end
end ApiServer
