import ApiServer.Lib.JsonContext
import ApiServer.Worker

/-!
# Bodies in several extents (`worker_process_payload`)

The network decides how a body is split into extents. `peekLoop` is the loop over them as the code
has it, with a position in the evbuffer; it ends, and `parseExtents` is what it computes. An
incremental parser then gives one verdict for all the ways to split a body.
-/

namespace ApiServer
open Bytes

/-! ## The walk over the extents -/

/-- `evbuffer_peek` with room for one extent: what the extent at `pos` still holds. -/
def evbufferPeek : List Bytes → Nat → Option Bytes
  | [], _ => none
  | extent :: extents, pos =>
    if pos < extent.length then some (extent.drop pos)
    else evbufferPeek extents (pos - extent.length)

/-- `evbuffer_ptr_set` with `EVBUFFER_PTR_ADD`; the end of the buffer is a position. -/
def evbufferPtrAdd (inBuf : List Bytes) (pos howfar : Nat) : Option Nat :=
  if pos + howfar ≤ inBuf.flatten.length then some (pos + howfar) else none

section
variable (K : Tokener)

/-- The slow path, with the extents it has visited; `none` when `fuel` runs out. -/
def peekLoop (inBuf : List Bytes) : Nat → Nat → K.State → Option Json → List Bytes →
    Option ((K.State × Option Json) × List Bytes)
  | 0, _, _, _, _ => none
  | fuel + 1, pos, tok, parsed, visited =>
    match evbufferPeek inBuf pos with
    | none => some ((tok, parsed), visited)
    | some v =>
      let (tok, obj) := K.parseEx tok v
      let parsed := obj.or parsed
      let visited := visited ++ [v]
      if K.getError tok ≠ .continued then some ((tok, parsed), visited)
      else
        match evbufferPtrAdd inBuf pos v.length with
        | none => some ((tok, parsed), visited)
        | some pos => peekLoop inBuf fuel pos tok parsed visited

theorem evbufferPeek_behind (done extents : List Bytes) (pos : Nat) :
    evbufferPeek (done ++ extents) (done.flatten.length + pos) = evbufferPeek extents pos := by
  induction done with
  | nil => rw [List.nil_append, List.flatten_nil, List.length_nil, Nat.zero_add]
  | cons extent done ih =>
    rw [List.cons_append, evbufferPeek, List.flatten_cons, List.length_append, if_neg (by omega),
      Nat.add_assoc, Nat.add_sub_cancel_left, ih]

/-- From a position between two extents, the loop does what `parseExtents` does with the rest. -/
theorem peekLoop_eq (visited extents : List Bytes) (hne : ∀ e ∈ extents, e ≠ [])
    (tok : K.State) (parsed : Option Json) {fuel : Nat} (hfuel : extents.length < fuel) :
    ∃ seen, seen <+: extents ∧
      peekLoop K (visited ++ extents) fuel visited.flatten.length tok parsed visited =
        some (parseExtents K tok parsed extents, visited ++ seen) := by
  induction extents generalizing visited tok parsed fuel with
  | nil =>
    obtain ⟨fuel, rfl⟩ := Nat.exists_eq_add_one.mpr hfuel
    have hend := evbufferPeek_behind visited [] 0
    rw [Nat.add_zero] at hend
    refine ⟨[], List.prefix_refl _, ?_⟩
    rw [peekLoop, hend, parseExtents, List.append_nil]
    rfl
  | cons extent extents ih =>
    obtain ⟨fuel, rfl⟩ := Nat.exists_eq_add_one.mpr (Nat.zero_lt_of_lt hfuel)
    have hpos : 0 < extent.length := List.length_pos_iff.mpr (hne extent (List.mem_cons_self ..))
    have hpeek := evbufferPeek_behind visited (extent :: extents) 0
    rw [Nat.add_zero, evbufferPeek, if_pos hpos, List.drop_zero] at hpeek
    have hadd : evbufferPtrAdd (visited ++ extent :: extents) visited.flatten.length extent.length =
        some (visited ++ [extent]).flatten.length := by
      rw [evbufferPtrAdd, if_pos (by simp [List.flatten_append])]
      simp
    rw [peekLoop, hpeek, parseExtents]
    dsimp only
    split
    · exact ⟨[extent], ⟨extents, rfl⟩, rfl⟩
    · obtain ⟨seen, ⟨left, hseen⟩, hrun⟩ := ih (visited ++ [extent])
        (fun e he => hne e (List.mem_cons_of_mem _ he)) (K.parseEx tok extent).1
        ((K.parseEx tok extent).2.or parsed)
        (show extents.length < fuel by rw [List.length_cons] at hfuel; omega)
      rw [List.append_assoc, List.append_assoc, List.singleton_append] at hrun
      refine ⟨extent :: seen, ⟨left, by rw [List.cons_append, hseen]⟩, ?_⟩
      rw [hadd]
      exact hrun

/-! ## One verdict -/

/-- The parser decides at a byte of the text: whatever follows a verdict is not read, and a value
comes with a success. -/
structure Tokener.Automaton : Prop where
  object_of_success : ∀ text, K.getError (K.parseEx K.new text).1 = .success →
    (K.parseEx K.new text).2 ≠ none
  settled : ∀ text more, K.getError (K.parseEx K.new text).1 ≠ .continued →
    (K.parseEx K.new (text ++ more)).2 = (K.parseEx K.new text).2 ∧
      K.getError (K.parseEx K.new (text ++ more)).1 = K.getError (K.parseEx K.new text).1

variable {K}

/-- The loop ends with the verdict and the object for the whole text. -/
theorem parseExtents_agrees (A : K.Automaton) {tok : K.State} {text : Bytes}
    (hwaits : Tokener.Waits tok text) (parsed : Option Json) {extents : List Bytes}
    (hne : extents ≠ []) :
    K.getError (parseExtents K tok parsed extents).1 =
        K.getError (K.parseEx K.new (text ++ extents.flatten)).1 ∧
      (parseExtents K tok parsed extents).2 =
        (K.parseEx K.new (text ++ extents.flatten)).2.or parsed := by
  induction extents generalizing tok text with
  | nil => exact absurd rfl hne
  | cons extent extents ih =>
    rw [parseExtents, hwaits.parseEx, List.flatten_cons, ← List.append_assoc]
    dsimp only
    split
    · rename_i hend
      obtain ⟨hobj, herr⟩ := A.settled (text ++ extent) extents.flatten hend
      exact ⟨herr.symm, by rw [hobj]⟩
    · rename_i hmore
      rw [not_not] at hmore
      have hnone : (K.parseEx K.new (text ++ extent)).2 = none := by
        by_contra hobj
        rw [K.success_of_object _ _ hobj] at hmore
        cases hmore
      rw [hnone, Option.none_or]
      cases extents with
      | nil => rw [parseExtents, List.flatten_nil, List.append_nil, hnone]; exact ⟨rfl, rfl⟩
      | cons next extents => exact ih (.inr ⟨rfl, hmore⟩) (List.cons_ne_nil _ _)

theorem parseInput_agrees (A : K.Automaton) (parsed : Option Json) {extents : List Bytes}
    (hne : extents ≠ []) (hexts : ∀ e ∈ extents, e ≠ []) :
    K.getError (parseInput K parsed extents).1 =
        K.getError (K.parseEx K.new extents.flatten).1 ∧
      (K.getError (parseInput K parsed extents).1 = .success →
        (parseInput K parsed extents).2 = (K.parseEx K.new extents.flatten).2) := by
  have hfilter : extents.filter (· ≠ []) = extents :=
    List.filter_eq_self.mpr fun e he => by simpa using hexts e he
  rw [parseInput]
  split
  · exact ⟨rfl, fun _ => rfl⟩
  · obtain ⟨herr, hobj⟩ := parseExtents_agrees A (.inl ⟨rfl, rfl⟩) parsed hne
    rw [List.nil_append] at herr hobj
    rw [hfilter]
    refine ⟨herr, fun hsuccess => ?_⟩
    obtain ⟨v, hv⟩ := Option.ne_none_iff_exists'.mp (A.object_of_success _ (herr ▸ hsuccess))
    rw [hobj, hv]
    rfl

variable {H : Type}

/-- The state with another body. -/
def WorkerState.withBody (w : WorkerState H) (extents : List Bytes) : WorkerState H :=
  { w with task := { w.task with req := { w.task.req with inputBuffer := extents } } }

/-- The same verdict, the same reply and, if the body is accepted, the same object. -/
structure SameOutcome (r r' : Bool × WorkerState H) : Prop where
  verdict : r.1 = r'.1
  statusCode : r.2.task.statusCode = r'.2.task.statusCode
  statusTxt : r.2.task.statusTxt = r'.2.task.statusTxt
  workerBuf : r.2.task.workerBuf = r'.2.task.workerBuf
  parsedBody : r.1 = true → r.2.task.parsedBody = r'.2.task.parsedBody

theorem SameOutcome.ite {c c' : Prop} [Decidable c] [Decidable c'] {r s r' s' : Bool × WorkerState H}
    (hc : c ↔ c') (h : c → SameOutcome r r') (h' : ¬c → SameOutcome s s') :
    SameOutcome (if c then r else s) (if c' then r' else s') := by
  by_cases hcase : c
  · rw [if_pos hcase, if_pos (hc.mp hcase)]
    exact h hcase
  · rw [if_neg hcase, if_neg (mt hc.mpr hcase)]
    exact h' hcase

theorem workerProcessPayload_agrees (A : K.Automaton) (tokenerNew : Bool) (w : WorkerState H)
    {extents : List Bytes} (hne : extents ≠ []) (hexts : ∀ e ∈ extents, e ≠ []) :
    SameOutcome (workerProcessPayload K tokenerNew (w.withBody extents))
      (workerProcessPayload K tokenerNew (w.withBody [extents.flatten])) := by
  have hflat : extents.flatten.length ≠ 0 := by
    obtain ⟨e, es, rfl⟩ := List.exists_cons_of_ne_nil hne
    have := List.length_pos_iff.mpr (hexts e (List.mem_cons_self ..))
    rw [List.flatten_cons, List.length_append]
    omega
  have hwhole : parseInput K w.task.parsedBody [extents.flatten] =
      K.parseEx K.new extents.flatten := by simp [parseInput]
  obtain ⟨herr, hobj⟩ := parseInput_agrees A w.task.parsedBody hne hexts
  simp only [workerProcessPayload, WorkerState.withBody, List.flatten_singleton, hwhole]
  refine .ite .rfl (fun _ => ⟨rfl, rfl, rfl, rfl, fun _ => rfl⟩) fun _ => ?_
  refine .ite .rfl (fun _ => ⟨rfl, rfl, rfl, rfl, fun _ => rfl⟩) fun _ => ?_
  refine .ite .rfl (fun hempty => absurd hempty hflat) fun _ => ?_
  refine .ite .rfl (fun _ => ⟨rfl, rfl, rfl, rfl, fun _ => rfl⟩) fun _ => ?_
  refine .ite ?_ (fun _ => ⟨rfl, rfl, rfl, rfl, fun h => Bool.noConfusion h⟩) fun haccepted =>
    ⟨rfl, rfl, rfl, rfl, fun _ => hobj (not_not.mp fun h => haccepted (.inr h))⟩
  -- only a success is looked at more closely, and then the objects are the same
  by_cases hsuccess : K.getError (parseInput K w.task.parsedBody extents).1 = .success
  · rw [hobj hsuccess, herr]
  · exact iff_of_true (.inr hsuccess) (.inr (herr ▸ hsuccess))

/-- However the body is split, the verdict, the object and the reply are those for the body in one
piece; the loop ends, and visits the extents in their order. -/
theorem payload_split_independent (A : K.Automaton) (tokenerNew : Bool) (w : WorkerState H)
    (extents : List Bytes) (hne : extents ≠ []) (hexts : ∀ e ∈ extents, e ≠ []) :
    SameOutcome (workerProcessPayload K tokenerNew (w.withBody extents))
      (workerProcessPayload K tokenerNew (w.withBody [extents.flatten])) ∧
    ∃ visited result, visited <+: extents ∧
      peekLoop K extents (extents.length + 1) 0 K.new w.task.parsedBody [] =
        some (result, visited) ∧
      (1 < extents.length → parseInput K w.task.parsedBody extents = result) := by
  refine ⟨workerProcessPayload_agrees A tokenerNew w hne hexts, ?_⟩
  obtain ⟨visited, hpart, hrun⟩ := peekLoop_eq K [] extents hexts K.new w.task.parsedBody
    (Nat.lt_succ_self _)
  refine ⟨visited, _, hpart, hrun, fun hlong => ?_⟩
  have hfilter : extents.filter (· ≠ []) = extents :=
    List.filter_eq_self.mpr fun e he => by simpa using hexts e he
  obtain ⟨e, es, rfl⟩ := List.exists_cons_of_ne_nil hne
  obtain ⟨e', es, rfl⟩ := List.exists_cons_of_ne_nil (l := es) (by rintro rfl; simp at hlong)
  have hsecond : 0 < e'.length := List.length_pos_iff.mpr (hexts e' (by simp))
  rw [parseInput, hfilter, if_neg]
  simp only [List.flatten_cons, List.length_append, List.headD_cons]
  omega

end

/-! ## A parser for objects -/

/-- A text that does not start an object is refused; one that does is waited for. -/
def objectVerdict (text : Bytes) : TokenerError × Option Json :=
  match (Json.skipWs text).head? with
  | none => (.continued, none)
  | some c =>
    if c = 123 then
      match Json.value (text.length + 1) text with
      | some (v, _) => (.success, some v)
      | none => (.continued, none)
    else (.failed, none)

theorem objectVerdict_append {text : Bytes} (h : (objectVerdict text).1 ≠ .continued)
    (more : Bytes) : objectVerdict (text ++ more) = objectVerdict text := by
  unfold objectVerdict at h ⊢
  cases hhead : (Json.skipWs text).head? with
  | none => rw [hhead] at h; exact absurd rfl h
  | some c =>
    have hnil : Json.skipWs text ≠ [] := by rintro hnil; rw [hnil] at hhead; cases hhead
    rw [Json.skipWs_append hnil, List.head?_append_of_ne_nil _ hnil, hhead]
    rw [hhead] at h
    dsimp only at h ⊢
    split
    · rename_i hbrace
      rw [if_pos hbrace] at h
      cases hval : Json.value (text.length + 1) text with
      | none => rw [hval] at h; exact absurd rfl h
      | some p =>
        rw [Json.value_append hval (by simp) (.inl (hbrace ▸ hhead))]
    · rfl

/-- A parser that keeps what it has read, for objects only. -/
def objectTokener : Tokener where
  State := Bytes
  new := []
  parseEx tok text := (tok ++ text, (objectVerdict (tok ++ text)).2)
  getError tok := (objectVerdict tok).1
  success_of_object := by
    intro tok text
    dsimp only
    unfold objectVerdict
    split
    · exact fun h => absurd rfl h
    split
    · split
      · exact fun _ => rfl
      · exact fun h => absurd rfl h
    · exact fun h => absurd rfl h
  resume := by
    intro text more _
    simp only [List.nil_append]

theorem objectTokener_automaton : objectTokener.Automaton where
  object_of_success := by
    intro text
    change (objectVerdict ([] ++ text)).1 = _ → (objectVerdict ([] ++ text)).2 ≠ none
    unfold objectVerdict
    split
    · exact nofun
    split
    · split
      · exact fun _ => nofun
      · exact nofun
    · exact nofun
  settled text more h := by
    have hsame := @objectVerdict_append text h more
    change (objectVerdict (text ++ more)).2 = (objectVerdict text).2 ∧
      (objectVerdict (text ++ more)).1 = (objectVerdict text).1
    rw [hsame]
    exact ⟨rfl, rfl⟩

/-- A body that is cut inside an escape and right behind its closing brace. -/
theorem payload_split_in_escape :
    let extents := [bytes "\x7b\"a\":\"\\", bytes "n\"\x7d", bytes " x"]
    let w : WorkerState Unit := ⟨{}, {
      req := {
        command := .post
        uri := bytes "/api"
        inputHeaders := [(bytes "Content-Type", bytes "application/json")] }
      middlewareCtx := none }⟩
    SameOutcome (workerProcessPayload objectTokener true (w.withBody extents))
      (workerProcessPayload objectTokener true (w.withBody [extents.flatten])) :=
  (payload_split_independent objectTokener_automaton true _ _ (by decide) (by decide)).1

end ApiServer
