import ApiServer.Pipeline.Layout

/-!
# Exactly-once delivery

Each accepted task has a ticket. A ticket is either finalized, once and on the reactor that accepted
the task, or belongs to exactly one slot in flight. The logs of a queue are its content behind what
has left it.
-/

namespace ApiServer.Pipeline
open Function

/-! ## Tickets -/

section
variable {P : Topology} {Slot Job : Type}

/-- Accepted and not yet finalized. -/
def Place.InFlight : Place P → Prop
  | .worker _ | .lane _ => True
  | .free | .reactor _ => False

/-- A task is only ever with the reactor it belongs to. -/
def AtHome (rid : Nat) : Place P → Prop
  | .reactor r | .lane (.done r) | .lane (.batch r) => rid = r
  | .worker _ | .lane (.pool _) => rid < P.numReactors
  | .free => True

structure Tickets (h : History P.numReactors Slot Job) (rid : Slot → Nat) (own : Slot → Place P) :
    Prop where
  home : ∀ t, AtHome (rid t) (own t)
  lt : ∀ t, (own t).InFlight → h.ticket t < h.clock
  inj : ∀ t u, (own t).InFlight → (own u).InFlight → h.ticket t = h.ticket u → t = u
  owner : ∀ t, (own t).InFlight → h.owner (h.ticket t) = rid t
  finalized_lt : ∀ r, ∀ n ∈ h.finalized r, n < h.clock
  finalized_owner : ∀ r, ∀ n ∈ h.finalized r, h.owner n = r
  finalized_nodup : ∀ r, (h.finalized r).Nodup
  finalized_out : ∀ r, ∀ n ∈ h.finalized r, ∀ t, (own t).InFlight → h.ticket t ≠ n
  total : ∀ n, n < h.clock → (∃ r, n ∈ h.finalized r) ∨ ∃ t, (own t).InFlight ∧ h.ticket t = n

/-- The queues are first in, first out. -/
structure Logs (h : History P.numReactors Slot Job) (v : Lane P.numReactors → List Slot) : Prop where
  pool : ∀ p, h.accepted p = h.taken p ++ (v (.pool p)).map h.ticket
  done : ∀ r, h.completed r = h.finalized r ++ (v (.batch r) ++ v (.done r)).map h.ticket
  accepted_lt : ∀ p, ∀ n ∈ h.accepted p, n < h.clock
  total : ∀ n, n < h.clock → ∃ p, n ∈ h.accepted p

variable {h h' : History P.numReactors Slot Job} {rid rid' : Slot → Nat} {own own' : Slot → Place P}
  {v : Lane P.numReactors → List Slot} {t : Slot}

theorem Tickets.init :
    Tickets ({} : History P.numReactors Slot Job) (fun _ => 0) fun _ => .free where
  home _ := trivial
  lt _ := False.elim
  inj _ _ := False.elim
  owner _ := False.elim
  finalized_lt _ _ := nofun
  finalized_owner _ _ := nofun
  finalized_nodup _ := .nil
  finalized_out _ _ := nofun
  total _ := nofun

theorem Logs.init : Logs ({} : History P.numReactors Slot Job) fun _ => [] where
  pool _ := rfl
  done _ := rfl
  accepted_lt _ _ := nofun
  total _ := nofun

/-- The tasks in flight stay in flight. -/
theorem Tickets.congr (H : Tickets h rid own) (hticket : h'.ticket = h.ticket)
    (hclock : h'.clock = h.clock) (howner : h'.owner = h.owner)
    (hfin : h'.finalized = h.finalized) (hrid : ∀ t, (own t).InFlight → rid' t = rid t)
    (hfly : ∀ t, (own' t).InFlight ↔ (own t).InFlight) (hhome : ∀ t, AtHome (rid' t) (own' t)) :
    Tickets h' rid' own' where
  home := hhome
  lt t ht := by rw [hticket, hclock]; exact H.lt t ((hfly t).mp ht)
  inj t u ht hu := by rw [hticket]; exact H.inj t u ((hfly t).mp ht) ((hfly u).mp hu)
  owner t ht := by
    have ht := (hfly t).mp ht
    rw [hticket, howner, hrid t ht]
    exact H.owner t ht
  finalized_lt := by rw [hfin, hclock]; exact H.finalized_lt
  finalized_owner := by rw [hfin, howner]; exact H.finalized_owner
  finalized_nodup := by rw [hfin]; exact H.finalized_nodup
  finalized_out r n hn t ht := by
    rw [hfin] at hn
    rw [hticket]
    exact H.finalized_out r n hn t ((hfly t).mp ht)
  total n hn := by
    rw [hclock] at hn
    rw [hfin, hticket]
    exact (H.total n hn).imp id fun ⟨t, ht, e⟩ => ⟨t, (hfly t).mpr ht, e⟩

end

section
variable {P : Topology} {Slot Job : Type} [DecidableEq Slot]
  {h h' : History P.numReactors Slot Job} {rid rid' : Slot → Nat} {own own' : Slot → Place P}
  {v : Lane P.numReactors → List Slot} {t : Slot}

theorem Tickets.home_update (H : Tickets h rid own) {q : Place P} (hq : AtHome (rid t) q) :
    ∀ u, AtHome (rid u) (update own t q u) :=
  forall_update (P := fun u q => AtHome (rid u) q) hq H.home

/-- A task in flight moves on. -/
theorem Tickets.move (H : Tickets h rid own) {q : Place P} (hticket : h'.ticket = h.ticket)
    (hclock : h'.clock = h.clock) (howner : h'.owner = h.owner)
    (hfin : h'.finalized = h.finalized) (ht : (own t).InFlight) (hq : q.InFlight)
    (hhome : AtHome (rid t) q) : Tickets h' rid (update own t q) := by
  refine H.congr hticket hclock howner hfin (fun _ _ => rfl) ?_ (H.home_update hhome)
  exact forall_update (P := fun u q => Place.InFlight q ↔ (own u).InFlight) (iff_of_true hq ht)
    fun _ => Iff.rfl

/-- A slot that is not in flight changes hands. -/
theorem Tickets.lease (H : Tickets h rid own) {q : Place P} {n : Nat} (ht : ¬(own t).InFlight)
    (hq : ¬q.InFlight) (hhome : AtHome n q) : Tickets h (update rid t n) (update own t q) := by
  have hne : ∀ u, (own u).InFlight → u ≠ t := fun u hu e => ht (e ▸ hu)
  refine H.congr rfl rfl rfl rfl (fun u hu => update_of_ne (hne u hu) ..) ?_ fun u => ?_
  · exact forall_update (P := fun u q => Place.InFlight q ↔ (own u).InFlight) (iff_of_false hq ht)
      fun _ => Iff.rfl
  · by_cases hu : u = t
    · subst hu
      rw [update_self, update_self]
      exact hhome
    · rw [update_of_ne hu, update_of_ne hu]
      exact H.home u

/-- A task is accepted and gets the next ticket. -/
theorem Tickets.accept (H : Tickets h rid own) {p : PoolId} {r : Fin P.numReactors}
    (ht : own t = .reactor r) (hticket : h'.ticket = update h.ticket t h.clock)
    (hclock : h'.clock = h.clock + 1) (howner : h'.owner = update h.owner h.clock (rid t))
    (hfin : h'.finalized = h.finalized) :
    Tickets h' rid (update own t (.lane (.pool p))) := by
  have hrid := H.home t
  rw [ht] at hrid
  have hold : ∀ u, u ≠ t → (update own t (.lane (.pool p)) u).InFlight → (own u).InFlight := by
    intro u hu h
    rwa [update_of_ne hu] at h
  have hnew : ∀ u, u ≠ t → (own u).InFlight → h'.ticket u = h.ticket u ∧ h.ticket u < h.clock :=
    fun u hu hf => ⟨by rw [hticket, update_of_ne hu], H.lt u hf⟩
  have hself : h'.ticket t = h.clock := by rw [hticket, update_self]
  have hkeep : ∀ n, n < h.clock → h'.owner n = h.owner n :=
    fun n hn => by rw [howner, update_of_ne (Nat.ne_of_lt hn)]
  exact {
    home := H.home_update (hrid.symm ▸ r.isLt)
    lt u hf := by
      by_cases hu : u = t
      · subst hu
        omega
      · have := hnew u hu (hold u hu hf)
        omega
    inj u u' hf hf' e := by
      by_cases hu : u = t <;> by_cases hu' : u' = t
      · rw [hu, hu']
      · have := hnew u' hu' (hold u' hu' hf')
        subst hu
        omega
      · have := hnew u hu (hold u hu hf)
        subst hu'
        omega
      · have h1 := hnew u hu (hold u hu hf)
        have h2 := hnew u' hu' (hold u' hu' hf')
        exact H.inj u u' (hold u hu hf) (hold u' hu' hf') (by omega)
    owner u hf := by
      by_cases hu : u = t
      · subst hu
        rw [hself, howner, update_self]
      · have h1 := hnew u hu (hold u hu hf)
        rw [h1.1, hkeep _ h1.2]
        exact H.owner u (hold u hu hf)
    finalized_lt r' n hn := by
      rw [hfin] at hn
      have := H.finalized_lt r' n hn
      omega
    finalized_owner r' n hn := by
      rw [hfin] at hn
      rw [hkeep n (H.finalized_lt r' n hn)]
      exact H.finalized_owner r' n hn
    finalized_nodup := by
      rw [hfin]
      exact H.finalized_nodup
    finalized_out r' n hn u hf := by
      rw [hfin] at hn
      by_cases hu : u = t
      · subst hu
        have := H.finalized_lt r' n hn
        omega
      · rw [(hnew u hu (hold u hu hf)).1]
        exact H.finalized_out r' n hn u (hold u hu hf)
    total n hn := by
      rw [hclock] at hn
      rw [hfin]
      rcases Nat.lt_succ_iff_lt_or_eq.mp hn with hn | rfl
      · refine (H.total n hn).imp id fun ⟨u, hf, e⟩ => ⟨u, ?_⟩
        have hu : u ≠ t := by
          rintro rfl
          rw [ht] at hf
          exact hf
        rw [update_of_ne hu]
        exact ⟨hf, (hnew u hu hf).1.trans e⟩
      · refine .inr ⟨t, ?_, hself⟩
        rw [update_self]
        trivial }

/-- A task leaves through its reactor. -/
theorem Tickets.finalize (H : Tickets h rid own) {r : Fin P.numReactors}
    (ht : own t = .lane (.batch r)) (hticket : h'.ticket = h.ticket) (hclock : h'.clock = h.clock)
    (howner : h'.owner = h.owner)
    (hfin : h'.finalized = update h.finalized r (h.finalized r ++ [h.ticket t])) :
    Tickets h' rid (update own t .free) := by
  have hfly : (own t).InFlight := by rw [ht]; trivial
  have hrid : rid t = r := by
    have := H.home t
    rwa [ht] at this
  have hold : ∀ u, (update own t .free u).InFlight → u ≠ t ∧ (own u).InFlight := by
    intro u hf
    by_cases hu : u = t
    · subst hu
      rw [update_self] at hf
      exact hf.elim
    · rw [update_of_ne hu] at hf
      exact ⟨hu, hf⟩
  have hmem : ∀ r' n, n ∈ h'.finalized r' ↔ (n = h.ticket t ∧ r' = r) ∨ n ∈ h.finalized r' :=
    fun r' n => by rw [hfin]; exact mem_update_snoc
  exact {
    home := H.home_update trivial
    lt u hf := by
      rw [hticket, hclock]
      exact H.lt u (hold u hf).2
    inj u u' hf hf' := by
      rw [hticket]
      exact H.inj u u' (hold u hf).2 (hold u' hf').2
    owner u hf := by
      rw [hticket, howner]
      exact H.owner u (hold u hf).2
    finalized_lt r' n hn := by
      rw [hclock]
      rcases (hmem r' n).mp hn with ⟨rfl, rfl⟩ | hn
      · exact H.lt t hfly
      · exact H.finalized_lt r' n hn
    finalized_owner r' n hn := by
      rw [howner]
      rcases (hmem r' n).mp hn with ⟨rfl, rfl⟩ | hn
      · exact (H.owner t hfly).trans hrid
      · exact H.finalized_owner r' n hn
    finalized_nodup := by
      rw [hfin]
      refine forall_update (P := fun _ => List.Nodup) ?_ H.finalized_nodup
      refine List.nodup_append.mpr ⟨H.finalized_nodup r, List.nodup_singleton _, ?_⟩
      intro n hn m hm e
      rw [List.mem_singleton] at hm
      exact H.finalized_out r n hn t hfly (hm.symm.trans e.symm)
    finalized_out r' n hn u hf := by
      obtain ⟨hu, hf⟩ := hold u hf
      rw [hticket]
      rcases (hmem r' n).mp hn with ⟨rfl, rfl⟩ | hn
      · exact fun e => hu (H.inj u t hf hfly e)
      · exact H.finalized_out r' n hn u hf
    total n hn := by
      rw [hclock] at hn
      rcases H.total n hn with ⟨r', hn⟩ | ⟨u, hf, e⟩
      · exact .inl ⟨r', (hmem r' n).mpr (.inr hn)⟩
      · by_cases hu : u = t
        · subst hu
          exact .inl ⟨r, (hmem r n).mpr (.inl ⟨e.symm, rfl⟩)⟩
        · refine .inr ⟨u, ?_, by rw [hticket]; exact e⟩
          rw [update_of_ne hu]
          exact hf }

end

/-! ## Steps -/

section
variable {P : Topology} {Slot Job : Type} {s s' : State P Slot Job}
  {v : Lane P.numReactors → List Slot} {own : Slot → Place P} {t : Slot}

structure Inv (s : State P Slot Job) (v : Lane P.numReactors → List Slot) (own : Slot → Place P) :
    Prop where
  layout : Layout s v own
  tickets : Tickets s.hist s.reactorId own
  logs : Logs s.hist v

theorem Inv.init : Inv ({} : State P Slot Job) (fun _ => []) fun _ => .free :=
  ⟨.init, .init, .init⟩

/-- Steps that move no task. -/
theorem Inv.quiet (H : Inv s v own) (hlayout : Layout s' v own) (hhist : s'.hist = s.hist)
    (hrid : s'.reactorId = s.reactorId) : Inv s' v own :=
  ⟨hlayout, by rw [hhist, hrid]; exact H.tickets, by rw [hhist]; exact H.logs⟩

theorem Inv.process [DecidableEq P.Worker] (H : Inv s v own) {w : P.Worker}
    (hw : s.worker w = .holding t) : Inv (processTask s w t) v own := by
  have hlayout : Layout (setWorker s w (.processed t)) v own :=
    H.layout.worker_phase (by rw [hw]; rfl) nofun
  refine ⟨?_, ?_, H.logs.pool, H.logs.done, H.logs.accepted_lt, H.logs.total⟩
  · exact hlayout.congr rfl rfl (fun _ => ⟨rfl, rfl⟩) (fun _ => rfl) (fun _ => rfl) (fun _ _ h => h)
      (fun _ => rfl) hlayout.batch
  · exact H.tickets.congr rfl rfl rfl rfl (fun _ _ => rfl) (fun _ => Iff.rfl) H.tickets.home

theorem map_update_of_notMem [DecidableEq Slot] {f : Slot → Nat} {l : List Slot} {n : Nat}
    (h : t ∉ l) : l.map (update f t n) = l.map f := by
  refine List.map_congr_left fun u hu => update_of_ne ?_ ..
  rintro rfl
  exact h hu

end

section
variable {P : Topology} {Slot Job : Type} [DecidableEq Slot]
  {s s' : State P Slot Job} {v : Lane P.numReactors → List Slot} {own : Slot → Place P}
  {t : Slot} {r : Fin P.numReactors} {isFast : Job → Bool}

namespace Inv

theorem receive (H : Inv s v own) (hr : s.reactor r = .loop) (ht : s.leased t = false) (job : Job) :
    Inv (fillTask s r t job) v (update own t (.reactor r)) := by
  have hown := (H.layout.free_iff t).mp ht
  refine ⟨H.layout.fillTask hr ht job, H.tickets.lease ?_ id rfl, H.logs⟩
  rw [hown]
  exact id

theorem enqueue (H : Inv s v own) (hr : s.reactor r = .accepting t)
    (hs : workerPoolEnqueue isFast s t = some s') :
    Inv (setReactor s' r .loop) (Layout.join v (.pool (poolFor isFast s t)) t)
      (update own t (.lane (.pool (poolFor isFast s t)))) := by
  have hown := H.layout.reactor_own hr
  have hnot : ∀ x, t ∉ v x := by
    intro x hx
    cases hown.symm.trans ((H.layout.lane_iff t x).mp hx)
  have hlayout := H.layout.enqueue hr hs
  obtain ⟨-, -, rfl⟩ := workerPoolEnqueue_eq_some hs
  generalize poolFor isFast s t = p at hlayout ⊢
  have hself : Layout.join v (.pool p) t (.pool p) = v (.pool p) ++ [t] := update_self ..
  have hother : ∀ y, y ≠ .pool p → Layout.join v (.pool p) t y = v y := fun y hy => update_of_ne hy ..
  refine ⟨hlayout, H.tickets.accept hown rfl rfl rfl rfl, ?_, ?_, ?_, ?_⟩
  · intro p'
    simp only [setReactor, appendTask]
    by_cases hp : p' = p
    · subst hp
      rw [update_self, hself, List.map_append, map_update_of_notMem (hnot _), List.map_singleton,
        update_self, H.logs.pool, List.append_assoc]
    · rw [update_of_ne hp, hother _ (by simpa using hp), map_update_of_notMem (hnot _)]
      exact H.logs.pool p'
  · intro r'
    simp only [setReactor, appendTask]
    rw [hother (.batch r') (by intro h; cases h), hother (.done r') (by intro h; cases h),
      map_update_of_notMem fun h => (List.mem_append.mp h).elim (hnot _) (hnot _)]
    exact H.logs.done r'
  · intro p' n hn
    simp only [setReactor, appendTask] at hn ⊢
    rcases mem_update_snoc.mp hn with ⟨rfl, -⟩ | hn
    · exact Nat.lt_succ_self _
    · exact Nat.lt_succ_of_lt (H.logs.accepted_lt p' n hn)
  · intro n hn
    simp only [setReactor, appendTask] at hn ⊢
    rcases Nat.lt_succ_iff_lt_or_eq.mp hn with hn | rfl
    · obtain ⟨p', hn⟩ := H.logs.total n hn
      exact ⟨p', mem_update_snoc.mpr (.inr hn)⟩
    · exact ⟨p, mem_update_snoc.mpr (.inl ⟨rfl, rfl⟩)⟩

theorem refuse (H : Inv s v own) (hr : s.reactor r = .accepting t) :
    Inv (release s r t .loop) v (update own t .free) := by
  have hown := H.layout.reactor_own hr
  have ht := H.tickets.lease (t := t) (q := .free) (n := s.reactorId t) (by rw [hown]; exact id) id
    trivial
  rw [update_eq_self] at ht
  exact ⟨H.layout.release hr, ht, H.logs⟩

theorem detach (H : Inv s v own) (hr : s.reactor r = .drained) :
    Inv (detachQueue s r) (Layout.moved v r)
      fun i => if i ∈ v (.done r) then .lane (.batch r) else own i := by
  obtain ⟨hempty, hlayout⟩ := H.layout.detach hr
  have hdone : Layout.moved v r (.done r) = [] := update_self ..
  have hbatch : Layout.moved v r (.batch r) = v (.done r) :=
    (update_of_ne (by nofun) ..).trans (update_self ..)
  have hother : ∀ y, y ≠ .done r → y ≠ .batch r → Layout.moved v r y = v y :=
    fun y h h' => (update_of_ne h ..).trans (update_of_ne h' ..)
  refine ⟨hlayout, ?_, ?_, ?_, H.logs.accepted_lt, H.logs.total⟩
  · refine H.tickets.congr rfl rfl rfl rfl (fun _ _ => rfl) (fun i => ?_) fun i => ?_
    · split
      · rename_i hi
        rw [(H.layout.lane_iff i _).mp hi]
        exact Iff.rfl
      · exact Iff.rfl
    · have hhome := H.tickets.home i
      split
      · rename_i hi
        rw [(H.layout.lane_iff i _).mp hi] at hhome
        exact hhome
      · exact hhome
  · intro p
    rw [hother (.pool p) nofun nofun]
    exact H.logs.pool p
  · intro r'
    have hlog := H.logs.done r'
    by_cases h : r' = r
    · subst h
      rw [hempty] at hlog
      rw [hdone, hbatch, List.append_nil]
      exact hlog
    · rw [hother (.batch r') nofun (by simpa using h), hother (.done r') (by simpa using h) nofun]
      exact hlog

theorem finalize (H : Inv s v own) {curr : Option Slot} (hr : s.reactor r = .finalizing t curr) :
    ∃ v', Inv (finalizeTask s r t curr) v' (update own t .free) := by
  obtain ⟨l, hl, hlayout⟩ := H.layout.finalize hr
  have hown := (H.layout.lane_iff t (.batch r)).mp (by rw [hl]; exact .head l)
  refine ⟨_, hlayout, H.tickets.finalize hown rfl rfl rfl rfl, ?_, ?_, H.logs.accepted_lt,
    H.logs.total⟩
  · intro p
    rw [update_of_ne (by intro h; cases h)]
    exact H.logs.pool p
  · intro r'
    have hlog := H.logs.done r'
    simp only [finalizeTask]
    rw [update_of_ne (show Lane.done r' ≠ .batch r by intro h; cases h)]
    by_cases h : r' = r
    · subst h
      rw [hl] at hlog
      rw [update_self, update_self, List.append_assoc]
      exact hlog
    · rw [update_of_ne h, update_of_ne (by simpa using h)]
      exact hlog

end Inv

end

section
variable {P : Topology} {Slot Job : Type} [DecidableEq Slot] [DecidableEq P.Worker]
  {s s' : State P Slot Job} {v : Lane P.numReactors → List Slot} {own : Slot → Place P}
  {t : Slot} {r : Fin P.numReactors} {w : P.Worker} {isFast : Job → Bool}

namespace Inv

theorem take (H : Inv s v own) (hw : s.worker w = .loop)
    (ht : (s.pool (P.poolOf w)).links.head = some t) :
    ∃ v', Inv (workerDequeue s w t) v' (update own t (.worker w)) := by
  obtain ⟨l, hl, hlayout⟩ := H.layout.dequeue hw ht
  refine ⟨_, hlayout, ?_, ?_, ?_, H.logs.accepted_lt, H.logs.total⟩
  · have hown := (H.layout.lane_iff t (.pool (P.poolOf w))).mp (by rw [hl]; exact .head l)
    have hhome := H.tickets.home t
    rw [hown] at hhome
    exact H.tickets.move rfl rfl rfl rfl (by rw [hown]; trivial) trivial hhome
  · intro p
    have hlog := H.logs.pool p
    simp only [workerDequeue]
    by_cases hp : p = P.poolOf w
    · subst hp
      rw [hl, List.map_cons] at hlog
      rw [update_self, update_self, List.append_assoc]
      exact hlog
    · rw [update_of_ne hp, update_of_ne (by simpa using hp)]
      exact hlog
  · intro r'
    rw [update_of_ne (by nofun), update_of_ne (by nofun)]
    exact H.logs.done r'

theorem append (H : Inv s v own) (hw : s.worker w = .unlinked t) (hr : s.reactorId t = r.val) :
    Inv (serverNotifyTaskDone s w t r) (Layout.join v (.done r) t)
      (update own t (.lane (.done r))) := by
  have hown := H.layout.worker_own hw rfl
  have hself : Layout.join v (.done r) t (.done r) = v (.done r) ++ [t] := update_self ..
  have hother : ∀ y, y ≠ .done r → Layout.join v (.done r) t y = v y := fun y hy => update_of_ne hy ..
  refine ⟨H.layout.append hw, ?_, ?_, ?_, H.logs.accepted_lt, H.logs.total⟩
  · exact H.tickets.move rfl rfl rfl rfl (by rw [hown]; trivial) trivial hr
  · intro p
    rw [hother (.pool p) nofun]
    exact H.logs.pool p
  · intro r'
    have hlog := H.logs.done r'
    simp only [serverNotifyTaskDone]
    rw [hother (.batch r') nofun]
    by_cases h : r' = r
    · subst h
      rw [update_self, hself, ← List.append_assoc, List.map_append, ← List.append_assoc, hlog]
      rfl
    · rw [update_of_ne h, hother (.done r') (by simpa using h)]
      exact hlog

/-- The step lemma. -/
theorem step (H : Inv s v own) {e : Event P Slot Job} (h : Step isFast s e s') :
    ∃ v' own', Inv s' v' own' := by
  have quiet : ∀ {s'}, Layout s' v own → s'.hist = s.hist → s'.reactorId = s.reactorId →
      ∃ v' own', Inv s' v' own' := fun h h1 h2 => ⟨_, _, H.quiet h h1 h2⟩
  have batch : ∀ {r ph}, s.reactor r = ph → IsBatch s.next ph (v (.batch r)) := by
    rintro r _ rfl
    exact H.layout.batch r
  have reactor : ∀ {r ph ph'}, s.reactor r = ph → ph.task = none → ph'.task = none →
      IsBatch s.next ph' (v (.batch r)) → Layout (setReactor s r ph') v own := by
    rintro r _ ph' rfl h h' hb
    exact H.layout.reactor_phase h h' hb
  have worker : ∀ {w ph ph'}, s.worker w = ph → ph.task = ph'.task → (∀ t, ph' ≠ .unlinked t) →
      Layout (setWorker s w ph') v own := by
    rintro w _ ph' rfl h h'
    exact H.layout.worker_phase h h'
  have control : ∀ {s'}, s'.next = s.next → s'.leased = s.leased → s'.worker = s.worker →
      s'.reactor = s.reactor → s'.completion = s.completion → s'.pool = s.pool →
      s'.hist = s.hist → s'.reactorId = s.reactorId → ∃ v' own', Inv s' v' own' := by
    intro s' hn hl hw hr hc hp hh hi
    refine quiet (H.layout.congr hl hn (fun p => by rw [hp]; exact ⟨rfl, rfl⟩)
      (fun r => by rw [hc]) (fun w => by rw [hw]) (fun w t h => by rwa [hw] at h)
      (fun r => by rw [hr]) fun r => ?_) hh hi
    rw [hr]
    exact H.layout.batch r
  cases h with
  | receive hr ht => exact ⟨_, _, H.receive hr ht _⟩
  | enqueue hr hs => exact ⟨_, _, H.enqueue hr hs⟩
  | refuse hr _ => exact ⟨_, _, H.refuse hr⟩
  | cancel _ => exact control rfl rfl rfl rfl rfl rfl rfl rfl
  | take hw ht =>
    obtain ⟨v', H'⟩ := H.take hw ht
    exact ⟨v', _, H'⟩
  | process hw => exact ⟨_, _, H.process hw⟩
  | unlink hw _ => exact quiet (H.layout.unlink hw) rfl rfl
  | @lose w t hw hrid =>
    -- the guard never fires: the task has the id of a reactor
    have hhome := H.tickets.home t
    rw [H.layout.worker_own hw rfl] at hhome
    exact absurd hhome (Nat.not_lt.mpr hrid)
  | append hw hr => exact ⟨_, _, H.append hw hr⟩
  | @signal w _ hw =>
    have hlayout : Layout (setWorker s w .loop) v own := worker hw rfl nofun
    exact quiet (hlayout.eventfd ..) rfl rfl
  | signalFails hw _ => exact quiet (worker hw rfl nofun) rfl rfl
  | leave hw _ _ => exact quiet (worker hw rfl nofun) rfl rfl
  | wake hr =>
    have hb := batch hr
    exact quiet (reactor hr rfl rfl hb) rfl rfl
  | @read r _ hr _ =>
    have hb := batch hr
    have hlayout : Layout (setReactor s r (.reading true)) v own := reactor hr rfl rfl hb
    exact quiet (hlayout.eventfd ..) rfl rfl
  | readFails hr _ =>
    have hb := batch hr
    exact quiet (reactor hr rfl rfl hb) rfl rfl
  | detach hr => exact ⟨_, _, H.detach hr⟩
  | visit hr => exact quiet (reactor hr rfl rfl (batch hr).eq_cons) rfl rfl
  | visited hr => exact quiet (reactor hr rfl rfl (batch hr).eq_nil) rfl rfl
  | finalize hr =>
    obtain ⟨v', H'⟩ := H.finalize hr
    exact ⟨v', _, H'⟩
  | quit hr _ =>
    have hb := batch hr
    exact quiet (reactor hr rfl rfl hb) rfl rfl
  | stopFast _ => exact quiet (H.layout.shutdown ..) rfl rfl
  | stopSlow _ => exact quiet (H.layout.shutdown ..) rfl rfl
  | joinWorkers _ _ => exact control rfl rfl rfl rfl rfl rfl rfl rfl
  | drain _ _ _ => exact control rfl rfl rfl rfl rfl rfl rfl rfl
  | drained _ => exact control rfl rfl rfl rfl rfl rfl rfl rfl
  | loopbreak _ _ => exact control rfl rfl rfl rfl rfl rfl rfl rfl
  | broken _ => exact control rfl rfl rfl rfl rfl rfl rfl rfl
  | joinReactors _ _ => exact control rfl rfl rfl rfl rfl rfl rfl rfl

end Inv

theorem inv_of_reachable {G : State P Slot Job → Event P Slot Job → Prop}
    (H : (system P Slot isFast).Reachable G s) : ∃ v own, Inv s v own := by
  refine H.invariant (I := fun s => ∃ v own, Inv s v own) ?_ ?_
  · rintro s rfl
    exact ⟨_, _, .init⟩
  · rintro s e s' - ⟨v, own, hs⟩ - h
    exact hs.step h

end

end ApiServer.Pipeline
