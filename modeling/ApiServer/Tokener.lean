import ApiServer.JsonC

/-!
# The incremental parser of json-c

`json_tokener_parse_ex` reads a text piece by piece. It returns an object only when it reports
success, and while it reports `json_tokener_continue` it goes on as if the pieces had been one text.
A null pointer is `none`, so the text `null` succeeds without an object.
-/

namespace ApiServer

inductive TokenerError where
  | success
  /-- `json_tokener_continue`. -/
  | continued
  | failed
  deriving DecidableEq

structure Tokener where
  State : Type
  new : State
  parseEx : State → Bytes → State × Option Json
  getError : State → TokenerError
  success_of_object : ∀ tok text, (parseEx tok text).2 ≠ none →
    getError (parseEx tok text).1 = .success
  resume : ∀ text more, getError (parseEx new text).1 = .continued →
    parseEx (parseEx new text).1 more = parseEx new (text ++ more)

namespace Tokener
variable (K : Tokener)

/-- The parser, on one text, ends with success and this object. -/
def Returns (text : Bytes) (obj : Json) : Prop :=
  (K.parseEx K.new text).2 = some obj ∧ K.getError (K.parseEx K.new text).1 = .success

/-- The parser ends so on a text before it has seen all of it, or with its last byte. -/
def ReturnsFrom (text : Bytes) (obj : Json) : Prop :=
  ∃ read rest, text = read ++ rest ∧ K.Returns read obj

/-- The value a text starts with. -/
def readValue (text : Bytes) : Option Json := (Json.value (text.length + 1) text).map (·.1)

/-- A parser that keeps what it has read. -/
def reference : Tokener where
  State := Bytes
  new := []
  parseEx tok text := (tok ++ text,
    match readValue (tok ++ text) with
    | none | some .null => none
    | some obj => some obj)
  getError tok := if (readValue tok).isSome then .success else .continued
  success_of_object := by
    intro tok text h
    dsimp only at h ⊢
    split at h
    · exact absurd rfl h
    · exact absurd rfl h
    · rename_i hread
      rw [hread]; rfl
  resume := by
    intro text more _
    simp only [List.nil_append]

section
variable {K}

/-- The parser is new, or waits for more after `text`. -/
def Waits (tok : K.State) (text : Bytes) : Prop :=
  tok = K.new ∧ text = [] ∨ tok = (K.parseEx K.new text).1 ∧ K.getError tok = .continued

theorem Waits.parseEx {tok : K.State} (H : Waits tok text) (more : Bytes) :
    K.parseEx tok more = K.parseEx K.new (text ++ more) := by
  obtain ⟨rfl, rfl⟩ | ⟨rfl, h⟩ := H
  · rfl
  · exact K.resume text more h

end
end Tokener
end ApiServer
