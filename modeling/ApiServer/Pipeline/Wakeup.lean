import ApiServer.Pipeline.Delivery

/-!
# No lost wakeup

A worker writes the eventfd only when it has found the completion queue empty, and the reactor
clears the counter before it detaches the queue. So a task in the queue is always announced.
-/

namespace ApiServer.Pipeline
open Function

section
variable {P : Topology} {Slot Job : Type}

/-- Something will still make the reactor look at its completion queue. -/
def Announced (s : State P Slot Job) (r : Fin P.numReactors) : Prop :=
  0 < (s.completion r).eventfd ∨ (∃ w, s.worker w = .signalling r) ∨
    s.reactor r = .reading true ∨ s.reactor r = .drained

def Awake (s : State P Slot Job) : Prop :=
  ∀ r, (s.completion r).links.tail ≠ none → Announced s r

variable {s s' : State P Slot Job}

/-- Steps that announce no less. -/
theorem Awake.congr (H : Awake s)
    (htail : ∀ r, (s'.completion r).links.tail ≠ none → (s.completion r).links.tail ≠ none)
    (hfd : ∀ r, 0 < (s.completion r).eventfd → 0 < (s'.completion r).eventfd)
    (hworker : ∀ w r, s.worker w = .signalling r → s'.worker w = .signalling r)
    (hreactor : ∀ r, s.reactor r = .reading true ∨ s.reactor r = .drained →
      s'.reactor r = .reading true ∨ s'.reactor r = .drained) : Awake s' := by
  intro r hr
  rcases H r (htail r hr) with h | ⟨w, h⟩ | h
  · exact .inl (hfd r h)
  · exact .inr (.inl ⟨w, hworker w r h⟩)
  · exact .inr (.inr (hreactor r h))

/-- Steps that concern one reactor only, and leave it announced or with an empty queue. -/
theorem Awake.except (H : Awake s) (r : Fin P.numReactors)
    (hr : (s'.completion r).links.tail ≠ none → Announced s' r)
    (hother : ∀ r', r' ≠ r → s'.completion r' = s.completion r' ∧ s'.reactor r' = s.reactor r' ∧
      ∀ w, s.worker w = .signalling r' → s'.worker w = .signalling r') : Awake s' := by
  intro r' hr'
  by_cases h : r' = r
  · subst h
    exact hr hr'
  · obtain ⟨hc, hph, hw⟩ := hother r' h
    rw [hc] at hr'
    rcases H r' hr' with h | ⟨w, h⟩ | h
    · exact .inl (hc ▸ h)
    · exact .inr (.inl ⟨w, hw w h⟩)
    · exact .inr (.inr (hph ▸ h))

/-- A reactor that announces nothing goes to another phase. -/
theorem Awake.reactor_phase (H : Awake s) {r : Fin P.numReactors} {ph : ReactorPhase Slot}
    (h1 : s.reactor r ≠ .reading true) (h2 : s.reactor r ≠ .drained)
    (hr : s'.reactor = update s.reactor r ph) (hc : s'.completion = s.completion)
    (hw : s'.worker = s.worker) : Awake s' := by
  refine H.congr (fun r' => by rw [hc]; exact id) (fun r' => by rw [hc]; exact id)
    (fun w r' => by rw [hw]; exact id) fun r' h => ?_
  have hne : r' ≠ r := by
    rintro rfl
    exact h.elim h1 h2
  rw [hr, update_of_ne hne]
  exact h

end

section
variable {P : Topology} {Slot Job : Type} [DecidableEq Slot] [DecidableEq P.Worker]
  {s s' : State P Slot Job} {isFast : Job → Bool}

omit [DecidableEq Slot] in
/-- A worker that announces nothing goes to another phase. -/
theorem Awake.worker_phase (H : Awake s) {w : P.Worker} {ph : WorkerPhase Slot P.numReactors}
    (h : ∀ r, s.worker w ≠ .signalling r) (hw : s'.worker = update s.worker w ph)
    (hc : s'.completion = s.completion) (hr : s'.reactor = s.reactor) : Awake s' := by
  refine H.congr (fun r' => by rw [hc]; exact id) (fun r' => by rw [hc]; exact id)
    (fun w' r' h' => ?_) fun r' => by rw [hr]; exact id
  have hne : w' ≠ w := by
    rintro rfl
    exact h r' h'
  rw [hw, update_of_ne hne]
  exact h'

theorem Awake.append (H : Awake s) {w : P.Worker} {t : Slot} (hw : s.worker w = .unlinked t)
    (r : Fin P.numReactors) : Awake (serverNotifyTaskDone s w t r) := by
  intro r' hr'
  have hkeep : ∀ w' r'', s.worker w' = .signalling r'' →
      (serverNotifyTaskDone s w t r).worker w' = .signalling r'' := by
    intro w' r'' h
    have hne : w' ≠ w := by
      rintro rfl
      cases h.symm.trans hw
    simp only [serverNotifyTaskDone, update_of_ne hne]
    exact h
  have hfd : ((serverNotifyTaskDone s w t r).completion r').eventfd = (s.completion r').eventfd := by
    by_cases h : r' = r
    · subst h
      simp only [serverNotifyTaskDone, update_self]
    · simp only [serverNotifyTaskDone, update_of_ne h]
  have hold : Announced s r' → Announced (serverNotifyTaskDone s w t r) r' := by
    rintro (h | ⟨w', h⟩ | h)
    · exact .inl (hfd ▸ h)
    · exact .inr (.inl ⟨w', hkeep w' r' h⟩)
    · exact .inr (.inr h)
  by_cases h : r' = r
  · subst h
    by_cases htail : (s.completion r').links.tail = none
    · refine .inr (.inl ⟨w, ?_⟩)
      simp only [serverNotifyTaskDone, update_self, if_pos htail]
    · exact hold (H r' htail)
  · refine hold (H r' ?_)
    simpa only [serverNotifyTaskDone, update_of_ne h] using hr'

theorem Awake.step (H : Awake s) {e : Event P Slot Job} (h : Step isFast s e s') : Awake s' := by
  have keep : ∀ {w w' r r'}, s.worker w = .signalling r → r' ≠ r →
      s.worker w' = .signalling r' → update s.worker w .loop w' = .signalling r' := by
    intro w w' r r' hw hr h
    have hne : w' ≠ w := by
      rintro rfl
      exact hr (WorkerPhase.signalling.inj (h.symm.trans hw))
    rw [update_of_ne hne]
    exact h
  cases h with
  | receive hr _ => exact H.reactor_phase (by simp [hr]) (by simp [hr]) rfl rfl rfl
  | enqueue hr hs =>
    obtain ⟨-, -, rfl⟩ := workerPoolEnqueue_eq_some hs
    exact H.reactor_phase (by simp [hr]) (by simp [hr]) rfl rfl rfl
  | refuse hr _ => exact H.reactor_phase (by simp [hr]) (by simp [hr]) rfl rfl rfl
  | take hw _ => exact H.worker_phase (by simp [hw]) rfl rfl rfl
  | process hw => exact H.worker_phase (by simp [hw]) rfl rfl rfl
  | unlink hw _ => exact H.worker_phase (by simp [hw]) rfl rfl rfl
  | lose hw _ => exact H.worker_phase (by simp [hw]) rfl rfl rfl
  | append hw _ => exact H.append hw _
  | @signal w r hw =>
    refine H.except r (fun _ => .inl ?_) fun r' hr' => ⟨update_of_ne hr' .., rfl, fun w' h => ?_⟩
    · simp only [setEventfd, update_self]
      exact Nat.succ_pos _
    · exact keep hw hr' h
  | @signalFails w r hw hpos =>
    exact H.except r (fun _ => .inl hpos) fun r' hr' => ⟨rfl, rfl, fun w' h => keep hw hr' h⟩
  | leave hw _ _ => exact H.worker_phase (by simp [hw]) rfl rfl rfl
  | wake hr => exact H.reactor_phase (by simp [hr]) (by simp [hr]) rfl rfl rfl
  | @read r b _ _ =>
    refine H.except r (fun _ => .inr (.inr (.inl ?_))) fun r' hr' => ?_
    · simp only [setEventfd, setReactor, update_self]
    · simp only [setEventfd, setReactor, update_of_ne hr']
      exact ⟨trivial, trivial, fun _ h => h⟩
  | @readFails r b _ _ =>
    refine H.except r (fun _ => .inr (.inr (.inr ?_))) fun r' hr' => ?_
    · simp only [setReactor, update_self]
    · simp only [setReactor, update_of_ne hr']
      exact ⟨trivial, trivial, fun _ h => h⟩
  | @detach r _ =>
    refine H.except r (fun hne => absurd ?_ hne) fun r' hr' => ?_
    · simp only [detachQueue, update_self]
    · simp only [detachQueue, update_of_ne hr']
      exact ⟨trivial, trivial, fun _ h => h⟩
  | visit hr => exact H.reactor_phase (by simp [hr]) (by simp [hr]) rfl rfl rfl
  | visited hr => exact H.reactor_phase (by simp [hr]) (by simp [hr]) rfl rfl rfl
  | finalize hr => exact H.reactor_phase (by simp [hr]) (by simp [hr]) rfl rfl rfl
  | quit hr _ => exact H.reactor_phase (by simp [hr]) (by simp [hr]) rfl rfl rfl
  | _ => exact H

/-- A non-empty completion queue implies a positive counter, a worker that has found the queue empty
and has not written yet, or a reactor that has drained the counter and not yet detached the list. -/
theorem announced_of_reachable {G : State P Slot Job → Event P Slot Job → Prop}
    (H : (system P Slot isFast).Reachable G s) (r : Fin P.numReactors)
    (hr : (s.completion r).links.head ≠ none) :
    0 < (s.completion r).eventfd ∨ (∃ w, s.worker w = .signalling r) ∨
      s.reactor r = .reading true ∨ s.reactor r = .drained := by
  have hawake : Awake s := by
    refine H.invariant (I := Awake) ?_ fun _ _ _ _ h _ hs => h.step hs
    rintro s rfl r hr
    exact absurd rfl hr
  obtain ⟨v, own, hinv⟩ := inv_of_reachable H
  refine hawake r fun htail => hr ?_
  rw [(hinv.layout.done r).head_eq_none, ← (hinv.layout.done r).tail_eq_none]
  exact htail

end

/-- One task goes through the pool and is appended to the empty queue of its reactor. -/
theorem announced_of_reachable_appended :
    ∃ (s : State (.ofConfig 1 3 50 10) Nat Bool) (r : Fin 1), (s.completion r).links.head = some 7 ∧
      (0 < (s.completion r).eventfd ∨ (∃ w, s.worker w = .signalling r) ∨
        s.reactor r = .reading true ∨ s.reactor r = .drained) := by
  have hinit := System.Reachable.init (T := system (.ofConfig 1 3 50 10) Nat id)
    (G := fun _ _ => True) rfl
  have hstep : Step id ({} : State (.ofConfig 1 3 50 10) Nat Bool)
    (.receive ⟨0, Nat.one_pos⟩ 7 true) _ := .receive rfl rfl
  have henqueue := (hinit.step trivial hstep).step trivial
    (.enqueue (r := ⟨0, Nat.one_pos⟩) (t := 7) rfl rfl)
  have htake := henqueue.step trivial
    (.take (P := .ofConfig 1 3 50 10) (w := Sum.inl ⟨0, Nat.one_pos⟩) (t := 7) rfl rfl)
  have hprocess := htake.step trivial (.process (w := Sum.inl ⟨0, Nat.one_pos⟩) (t := 7) rfl)
  have hunlink := hprocess.step trivial
    (.unlink (w := Sum.inl ⟨0, Nat.one_pos⟩) (t := 7) rfl Nat.one_pos)
  have happend := hunlink.step trivial
    (.append (w := Sum.inl ⟨0, Nat.one_pos⟩) (t := 7) (r := ⟨0, Nat.one_pos⟩) rfl rfl)
  exact ⟨_, ⟨0, Nat.one_pos⟩, rfl, announced_of_reachable happend _ nofun⟩

end ApiServer.Pipeline
