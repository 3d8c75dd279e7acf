import ApiServer.Pipeline.Delivery

/-!
# Which tasks a worker has processed

A task waits from the moment it is accepted until its worker is done with it. Most steps carry every
task on as it is: none is filled, accepted, processed, refused or finalized by them.
-/

namespace ApiServer.Pipeline
open Function

section
variable {P : Topology} {Slot Job : Type}

/-- At that place the task is accepted and `worker_process_task` has not returned yet. -/
def WaitsAt (s : State P Slot Job) (t : Slot) : Place P → Prop
  | .lane (.pool _) => True
  | .worker w => s.worker w = .holding t
  | .lane _ | .free | .reactor _ => False

/-- The steps that carry the tasks on. -/
def Event.Carries : Event P Slot Job → Prop
  | .receive .. | .enqueue _ | .process _ | .finalize _ => False
  | _ => True

/-- What such a step leaves as it is. -/
structure Carried (s s' : State P Slot Job) (own own' : Slot → Place P) : Prop where
  job : s'.job = s.job
  cancelled : ∀ t, s.cancelled t = true → s'.cancelled t = true
  reactorId : s'.reactorId = s.reactorId
  ticket : s'.hist.ticket = s.hist.ticket
  clock : s'.hist.clock = s.hist.clock
  finalized : s'.hist.finalized = s.hist.finalized
  reactor : ∀ t r, own' t = .reactor r → own t = .reactor r
  inFlight : ∀ t, (own' t).InFlight → (own t).InFlight
  waits : ∀ t, WaitsAt s' t (own' t) ↔ WaitsAt s t (own t)

variable {s s' : State P Slot Job} {v : Lane P.numReactors → List Slot} {own : Slot → Place P}
  {t : Slot}

/-- Where no worker takes a task or lets one go, a place means what it meant. -/
theorem waitsAt_congr (s s' : State P Slot Job)
    (hworker : ∀ w, s'.worker w = .holding t ↔ s.worker w = .holding t)
    (p : Place P) : WaitsAt s' t p ↔ WaitsAt s t p := by
  cases p with
  | worker w => exact hworker w
  | lane x => cases x <;> exact Iff.rfl
  | free => exact Iff.rfl
  | reactor => exact Iff.rfl

/-- No task changes its place. -/
theorem Carried.same (hjob : s'.job = s.job)
    (hcancelled : ∀ t, s.cancelled t = true → s'.cancelled t = true)
    (hrid : s'.reactorId = s.reactorId) (hhist : s'.hist = s.hist)
    (hworker : ∀ w t, s'.worker w = .holding t ↔ s.worker w = .holding t) :
    Carried s s' own own where
  job := hjob
  cancelled := hcancelled
  reactorId := hrid
  ticket := by rw [hhist]
  clock := by rw [hhist]
  finalized := by rw [hhist]
  reactor _ _ h := h
  inFlight _ h := h
  waits _ := waitsAt_congr s s' (fun w => hworker w _) _

theorem holding_update [DecidableEq P.Worker] {w : P.Worker} {ph : WorkerPhase Slot P.numReactors}
    (hw : s.worker w ≠ .holding t) (hph : ph ≠ .holding t) (w' : P.Worker) :
    update s.worker w ph w' = .holding t ↔ s.worker w' = .holding t := by
  by_cases h : w' = w
  · subst h
    rw [update_self]
    exact iff_of_false hph hw
  · rw [update_of_ne h]

end

section
variable {P : Topology} {Slot Job : Type} [DecidableEq Slot]
  {s s' : State P Slot Job} {v : Lane P.numReactors → List Slot} {own : Slot → Place P}
  {t : Slot} {isFast : Job → Bool}

/-- One task in flight moves on. -/
theorem Carried.move {q : Place P} (hjob : s'.job = s.job) (hcancelled : s'.cancelled = s.cancelled)
    (hrid : s'.reactorId = s.reactorId) (hticket : s'.hist.ticket = s.hist.ticket)
    (hclock : s'.hist.clock = s.hist.clock)
    (hfinalized : s'.hist.finalized = s.hist.finalized) (ht : (own t).InFlight) (hq : q.InFlight)
    (hself : WaitsAt s' t q ↔ WaitsAt s t (own t))
    (hother : ∀ u, u ≠ t → ∀ w, s'.worker w = .holding u ↔ s.worker w = .holding u) :
    Carried s s' own (update own t q) where
  job := hjob
  cancelled u h := by rw [hcancelled]; exact h
  reactorId := hrid
  ticket := hticket
  clock := hclock
  finalized := hfinalized
  reactor u r h := by
    by_cases hu : u = t
    · subst hu
      rw [update_self] at h
      rw [h] at hq
      exact hq.elim
    · rwa [update_of_ne hu] at h
  inFlight u h := by
    by_cases hu : u = t
    · exact hu ▸ ht
    · rwa [update_of_ne hu] at h
  waits u := by
    by_cases hu : u = t
    · subst hu
      rw [update_self]
      exact hself
    · rw [update_of_ne hu]
      exact waitsAt_congr s s' (hother u hu) _

theorem Carried.detach (H : Inv s v own) (r : Fin P.numReactors) :
    Carried s (detachQueue s r) own
      fun i => if i ∈ v (.done r) then .lane (.batch r) else own i where
  job := rfl
  cancelled _ h := h
  reactorId := rfl
  ticket := rfl
  clock := rfl
  finalized := rfl
  reactor u r h := by
    split at h
    · cases h
    · exact h
  inFlight u h := by
    split at h
    · rename_i hu
      rw [(H.layout.lane_iff u _).mp hu]
      trivial
    · exact h
  waits u := by
    split
    · rename_i hu
      rw [(H.layout.lane_iff u _).mp hu]
      exact Iff.rfl
    · exact waitsAt_congr s (detachQueue s r) (fun _ => Iff.rfl) _

variable [DecidableEq P.Worker]

/-- A step that neither fills, accepts, processes, refuses nor finalizes a task carries them all. -/
theorem Inv.carry (H : Inv s v own) {e : Event P Slot Job} (he : e.Carries)
    (h : Step isFast s e s') : ∃ v' own', Inv s' v' own' ∧ Carried s s' own own' := by
  have stay : ∀ {s'}, Layout s' v own → s'.hist = s.hist → s'.reactorId = s.reactorId →
      s'.job = s.job → s'.cancelled = s.cancelled →
      (∀ w t, s'.worker w = .holding t ↔ s.worker w = .holding t) →
      ∃ v' own', Inv s' v' own' ∧ Carried s s' own own' :=
    fun hl hh hi hj hc hw =>
      ⟨v, own, H.quiet hl hh hi, .same hj (fun t h => by rw [hc]; exact h) hi hh hw⟩
  have batch : ∀ {r ph}, s.reactor r = ph → IsBatch s.next ph (v (.batch r)) := by
    rintro r _ rfl
    exact H.layout.batch r
  have reactor : ∀ {r ph ph'}, s.reactor r = ph → ph.task = none → ph'.task = none →
      IsBatch s.next ph' (v (.batch r)) →
      ∃ v' own', Inv (setReactor s r ph') v' own' ∧ Carried s (setReactor s r ph') own own' := by
    rintro r _ ph' rfl h h' hb
    exact stay (H.layout.reactor_phase h h' hb) rfl rfl rfl rfl fun _ _ => Iff.rfl
  have worker : ∀ {w ph q}, s.worker w = ph → ph.task = none → q.task = none →
      Layout (setWorker s w q) v own ∧
        ∀ w' t, update s.worker w q w' = .holding t ↔ s.worker w' = .holding t := by
    intro w ph q hw hnone hnone'
    have hne : ∀ {ph : WorkerPhase Slot P.numReactors}, ph.task = none →
        ∀ t, ph ≠ .holding t ∧ ph ≠ .unlinked t := by
      intro ph h t
      constructor <;> (rintro rfl; cases h)
    exact ⟨H.layout.worker_phase (by rw [hw, hnone, hnone']) fun t => (hne hnone' t).2,
      fun w' t => holding_update (hw ▸ (hne hnone t).1) (hne hnone' t).1 w'⟩
  have control : ∀ {s' : State P Slot Job}, s'.next = s.next → s'.leased = s.leased →
      s'.worker = s.worker → s'.reactor = s.reactor → s'.completion = s.completion → s'.pool = s.pool →
      Layout s' v own := by
    intro s' hn hl hw hr hc hp
    refine H.layout.congr hl hn (fun p => by rw [hp]; exact ⟨rfl, rfl⟩)
      (fun r => by rw [hc]) (fun w => by rw [hw]) (fun w t h => by rwa [hw] at h)
      (fun r => by rw [hr]) fun r => ?_
    rw [hr]
    exact H.layout.batch r
  cases h with
  | receive | enqueue | refuse | process | finalize => exact he.elim
  | @cancel t _ =>
    refine ⟨v, own, H.quiet (control rfl rfl rfl rfl rfl rfl) rfl rfl,
      .same rfl (fun u hu => ?_) rfl rfl fun _ _ => Iff.rfl⟩
    by_cases h : u = t
    · subst h
      exact update_self ..
    · exact (update_of_ne h ..).trans hu
  | @take w t hw ht =>
    obtain ⟨v', H'⟩ := H.take hw ht
    have hown : own t = .lane (.pool (P.poolOf w)) := by
      obtain ⟨l, hl, -⟩ := H.layout.dequeue hw ht
      exact (H.layout.lane_iff t _).mp (by rw [hl]; exact .head l)
    refine ⟨v', _, H', .move rfl rfl rfl rfl rfl rfl (by rw [hown]; trivial) trivial ?_
      fun u hu w' => ?_⟩
    · rw [hown]
      exact iff_of_true (update_self ..) trivial
    · refine holding_update (by rw [hw]; intro h; cases h) ?_ w'
      rintro ⟨⟩
      exact hu rfl
  | @unlink w t hw _ =>
    refine stay (H.layout.unlink hw) rfl rfl rfl rfl fun w' t' => ?_
    exact holding_update (by rw [hw]; intro h; cases h) (by intro h; cases h) w'
  | @lose w t hw hrid =>
    have hhome := H.tickets.home t
    rw [H.layout.worker_own hw rfl] at hhome
    exact absurd hhome (Nat.not_lt.mpr hrid)
  | @append w t r hw hr =>
    have hown := H.layout.worker_own hw rfl
    refine ⟨_, _, H.append hw hr, .move rfl rfl rfl rfl rfl rfl (by rw [hown]; trivial) trivial ?_
      fun u hu w' => ?_⟩
    · rw [hown]
      exact iff_of_false id (by rw [WaitsAt, hw]; intro h; cases h)
    · refine holding_update (by rw [hw]; intro h; cases h) ?_ w'
      intro h
      split at h <;> cases h
  | @signal w r hw =>
    obtain ⟨hlayout, hhold⟩ := worker (q := .loop) hw rfl rfl
    exact stay (hlayout.eventfd r _) rfl rfl rfl rfl hhold
  | signalFails hw _ =>
    obtain ⟨hlayout, hhold⟩ := worker (q := .loop) hw rfl rfl
    exact stay hlayout rfl rfl rfl rfl hhold
  | leave hw _ _ =>
    obtain ⟨hlayout, hhold⟩ := worker (q := .exited) hw rfl rfl
    exact stay hlayout rfl rfl rfl rfl hhold
  | wake hr =>
    have hb := batch hr
    exact reactor hr rfl rfl hb
  | @read r _ hr _ =>
    have hb := batch hr
    have hlayout : Layout (setReactor s r (.reading true)) v own :=
      H.layout.reactor_phase (by rw [hr]; rfl) rfl hb
    exact stay (hlayout.eventfd r 0) rfl rfl rfl rfl fun _ _ => Iff.rfl
  | readFails hr _ =>
    have hb := batch hr
    exact reactor hr rfl rfl hb
  | detach hr => exact ⟨_, _, H.detach hr, .detach H _⟩
  | visit hr =>
    exact reactor hr rfl rfl (batch hr).eq_cons
  | visited hr =>
    exact reactor hr rfl rfl (batch hr).eq_nil
  | quit hr _ =>
    have hb := batch hr
    exact reactor hr rfl rfl hb
  | stopFast _ => exact stay (H.layout.shutdown ..) rfl rfl rfl rfl fun _ _ => Iff.rfl
  | stopSlow _ => exact stay (H.layout.shutdown ..) rfl rfl rfl rfl fun _ _ => Iff.rfl
  | joinWorkers | drain | drained | loopbreak | broken | joinReactors =>
    exact stay (control rfl rfl rfl rfl rfl rfl) rfl rfl rfl rfl fun _ _ => Iff.rfl

end
end ApiServer.Pipeline
