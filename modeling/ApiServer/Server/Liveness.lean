import ApiServer.Pipeline.Halting
import ApiServer.Server

/-!
# Every accepted request is answered

A run of the server is a run of the pipeline, so what a fair run of the pipeline finalizes, a fair
run of the server answers. The other way round the server can follow every run of the pipeline whose
requests pass the middleware.
-/

namespace ApiServer.Server
open Function Pipeline System System.Run

section
variable {P : Topology} {Slot H : Type} [DecidableEq Slot] [DecidableEq P.Worker]
  {S : Sodium} {J : JsonC} {K : Tokener} {cfg : Config} {s : State P Slot H}

/-- The pipeline in a run of the server. -/
def baseRun (ρ : (system S J K cfg P Slot H).Run) :
    (Pipeline.system P Slot (isFast (H := H))).Run :=
  ρ.project refines_pipeline

variable {ρ : (system S J K cfg P Slot H).Run}

/-- A ticket keeps its request. -/
theorem admitted_next {e : Event P Slot H} {s' : State P Slot H} {n : Nat} {a : Arrival H}
    (hs : (system S J K cfg P Slot H).Reachable (fun _ _ => True) s)
    (h : s.admitted n = some a) (hst : Step S J K cfg s e s') : s'.admitted n = some a := by
  obtain ⟨v, own, -, D⟩ := data_of_reachable hs
  cases hst with
  | enqueue =>
    have hlt := (D.admitted n).mp (by rw [h]; rfl)
    exact (update_of_ne (Nat.ne_of_lt hlt) ..).trans h
  | process =>
    unfold workOn
    dsimp only
    split
    · exact h
    · split <;> exact h
  | _ => exact h

/-- Where no client goes away, each gets a reply. -/
theorem patient_of_run (hstay : ∀ i t, (ρ.state i).base.cancelled t = false) (i : Nat) :
    Patient (ρ.state i) := by
  induction i with
  | zero =>
    refine ⟨hstay 0, fun r x hx => ?_⟩
    have h : ρ.state 0 = {} := ρ.start
    rw [h] at hx
    cases hx
  | succ i ih =>
    refine ⟨hstay (i + 1), ?_⟩
    obtain heq | ⟨e, hs⟩ := ρ.next i
    · rw [heq]
      exact ih.answered
    · obtain ⟨v, own, hinv, D⟩ := data_of_reachable (ρ.reachable i)
      exact ih.answered_step D hinv hs

/-- The server can follow the pipeline. -/
theorem exists_follows {b : Pipeline.State P Slot (Arrival H)}
    (h : (Pipeline.system P Slot isFast).Reachable (fun _ e => ∀ r t a, e = .receive r t a →
      ∃ headers task, Fills cfg r.val a headers task) b) :
    ∃ s, (system S J K cfg P Slot H).Reachable (fun _ _ => True) s ∧ s.base = b := by
  induction h with
  | init h => exact ⟨{}, .init rfl, h.symm⟩
  | @step b e b' _ hG hst ih =>
    obtain ⟨s, hs, rfl⟩ := ih
    have hnext : ∀ {s'}, Step S J K cfg s (.pipe e) s' → s'.base = b' →
        ∃ s, (system S J K cfg P Slot H).Reachable (fun _ _ => True) s ∧ s.base = b' :=
      fun h heq => ⟨_, hs.step trivial h, heq⟩
    cases hst with
    | receive hr ht =>
      obtain ⟨headers, task, hfills⟩ := hG _ _ _ rfl
      exact hnext (.receive hr ht hfills) rfl
    | enqueue hr hq => exact hnext (.enqueue hr hq) rfl
    | refuse hr hq => exact hnext (.refuse hr hq) rfl
    | process hw => exact hnext (.process hw) (workOn_base _)
    | finalize hr => exact hnext (.finalize hr) rfl
    | _ => exact hnext (.carry trivial (by constructor <;> assumption)) rfl

end

end ApiServer.Server
