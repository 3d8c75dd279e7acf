import ApiServer.Logger.Pool

/-!
# Important records at shutdown

What the logger thread has still to write is `unwritten`: the rest of its batch, and the ring. A step
of it moves bytes from there to the output, and a call puts its record there or writes it itself. So
the record of an important call is in the output or on its way. The logger thread leaves with an
empty ring, but a thread that has found the logger running before can still put a record there.
-/

namespace ApiServer.Logger
open Bytes Function

section
variable {ι : Type}

/-! ## What is still to be written -/

/-- What the logger thread has still to write of its batch. -/
def LoggerPhase.pending (logBuffers : Nat → LogEntry ι) : LoggerPhase → List (Option ι × Bytes)
  | .taken batch => batch.map fun entry => (logBuffers entry).piece
  | .writing _ iov _ _ => iov.map (Iovec.read logBuffers)
  | .absent | .ready | .waiting | .returning _ | .exited => []

def State.unwritten (s : State ι) : List (Option ι × Bytes) :=
  s.logger.pending s.logBuffers ++ s.queued.map s.piece

/-- The vectors point into the batch, and what is left of them is what the counters say. -/
def LoggerPhase.InBatch : LoggerPhase → Prop
  | .writing batch iov written total =>
    (∀ v ∈ iov, v.buffer ∈ batch) ∧ written + iovLen iov = total
  | _ => True

theorem LoggerPhase.pending_signal (logBuffers : Nat → LogEntry ι) (phase : LoggerPhase) :
    phase.signal.pending logBuffers = phase.pending logBuffers := by
  cases phase <;> rfl

theorem LoggerPhase.InBatch.signal {phase : LoggerPhase} (H : phase.InBatch) :
    phase.signal.InBatch := by
  cases phase with
  | waiting => trivial
  | absent | ready | taken | writing | returning | exited => exact H

theorem LoggerPhase.exited_of_signal {phase : LoggerPhase} (h : phase.signal = .exited) :
    phase = .exited := by
  cases phase with
  | exited => rfl
  | absent | ready | waiting | taken | writing | returning => cases h

/-- Only the buffers of the batch are read. -/
theorem LoggerPhase.InBatch.pending_congr {phase : LoggerPhase} (H : phase.InBatch)
    {logBuffers logBuffers' : Nat → LogEntry ι}
    (h : ∀ entry ∈ phase.batch, logBuffers' entry = logBuffers entry) :
    phase.pending logBuffers' = phase.pending logBuffers := by
  cases phase with
  | taken batch => exact List.map_congr_left fun entry hentry => by rw [h entry hentry]
  | writing batch iov written total =>
    exact List.map_congr_left fun v hv => by rw [Iovec.read, h _ (H.1 v hv)]; rfl
  | absent | ready | waiting | returning | exited => rfl

variable {s t : State ι}

theorem unwritten_enqueueLog (H : Pooled s) (hbatch : s.logger.InBatch) {c : ι} {record : Record}
    (hfree : 0 < s.freeTop) (hcount : s.logCount < poolSize) :
    (enqueueLog s c record).unwritten = s.unwritten ++ [(some c, record.text)] := by
  have hsame := @buffers_enqueueLog _ _ c record H hfree
  rw [List.forall_mem_append] at hsame
  have hlogger : (enqueueLog s c record).logger.pending (enqueueLog s c record).logBuffers =
      s.logger.pending s.logBuffers := by
    rw [← hbatch.pending_congr hsame.1]
    simp only [enqueueLog]
    split
    · exact LoggerPhase.pending_signal ..
    · rfl
  have hqueued : s.queued.map (enqueueLog s c record).piece = s.queued.map s.piece :=
    List.map_congr_left fun entry hentry => congrArg LogEntry.piece (hsame.2 entry hentry)
  rw [State.unwritten, hlogger, queued_enqueueLog H hcount, List.map_append, hqueued,
    List.map_singleton, piece_enqueueLog, ← List.append_assoc]
  rfl

theorem len_le_iovLen {iov : List Iovec} {v : Iovec} (h : v ∈ iov) : v.len ≤ iovLen iov := by
  induction h with
  | head iov => exact (Nat.le_add_right ..).trans_eq (iovLen_cons v iov).symm
  | tail w _ ih => exact ih.trans ((Nat.le_add_left ..).trans_eq (iovLen_cons w _).symm)

theorem iovLen_advance {iov : List Iovec} {n : Nat} (h : n ≤ iovLen iov) :
    n + iovLen (advanceIovecs iov n) = iovLen iov := by
  induction iov generalizing n with
  | nil =>
    rw [advanceIovecs]
    exact Nat.add_eq_right.mpr (Nat.le_zero.mp h)
  | cons v iov ih =>
    rw [iovLen_cons] at h
    rw [advanceIovecs]
    split
    · omega
    · split
      · have := @ih (n - v.len) (by omega)
        rw [iovLen_cons]
        omega
      · rw [iovLen_cons, iovLen_cons]
        dsimp only
        omega

theorem buffer_of_mem_advance {iov : List Iovec} {n : Nat} {v : Iovec} (h : v ∈ advanceIovecs iov n) :
    ∃ v' ∈ iov, v'.buffer = v.buffer := by
  induction iov generalizing n with
  | nil => cases h
  | cons w iov ih =>
    rw [advanceIovecs] at h
    split at h
    · exact ⟨v, h, rfl⟩
    · split at h
      · obtain ⟨v', hv', hbuffer⟩ := ih h
        exact ⟨v', .tail _ hv', hbuffer⟩
      · obtain rfl | h := List.mem_cons.mp h
        · exact ⟨w, .head _, rfl⟩
        · exact ⟨v, .tail _ h, rfl⟩

theorem Iovec.read_split (logBuffers : Nat → LogEntry ι) {v : Iovec} {n : Nat} (h : n ≤ v.len) :
    v.read logBuffers =
      ((logBuffers v.buffer).owner, ({ v with len := n }.read logBuffers).2 ++
        ({ v with offset := v.offset + n, len := v.len - n }.read logBuffers).2) := by
  simp only [Iovec.read]
  rw [← List.drop_drop, ← List.take_add, Nat.add_sub_cancel' h]

variable [DecidableEq ι]

/-- What a `writev` writes and what it leaves is what there was. -/
theorem partOf_advance (c : Option ι) (logBuffers : Nat → LogEntry ι) (iov : List Iovec) (n : Nat) :
    partOf c (iov.map (Iovec.read logBuffers)) =
      partOf c ((firstIovecs iov n).map (Iovec.read logBuffers)) ++
        partOf c ((advanceIovecs iov n).map (Iovec.read logBuffers)) := by
  induction iov generalizing n with
  | nil => rfl
  | cons v iov ih =>
    rw [firstIovecs, advanceIovecs]
    split
    · rfl
    · split
      · rw [List.map_cons, List.map_cons, ← List.singleton_append, partOf_append, ih (n - v.len),
          ← List.append_assoc, ← partOf_append]
        rfl
      · next hlen =>
        rw [List.map_cons, Iovec.read_split logBuffers (Nat.le_of_not_le hlen)]
        exact partOf_split ..

/-! ## The account of a call -/

/-- A record that must not be lost. -/
def Important (job : ι → Job) (c : ι) (record : Record) : Prop :=
  ∃ level, job c = .log level record ∧ level ≠ .info

/-- What a call has to show for its record, when `out` is written and `rest` is with the logger
thread. -/
def Account (text out rest : Bytes) : CallPhase → Prop
  | .start | .tested | .refused => out = [] ∧ rest = []
  | .writing own left => own = true ∧ out ++ left = text ∧ rest = []
  | .logged | .claimed | .stopping | .joining | .done => out ++ rest = text

/-- Bytes pass from the logger thread to the output. -/
theorem Account.move {text out moved rest : Bytes} {phase : CallPhase}
    (H : Account text out (moved ++ rest) phase) : Account text (out ++ moved) rest phase := by
  cases phase with
  | start | tested | refused =>
    obtain ⟨rfl, hnil⟩ := H
    obtain ⟨rfl, rfl⟩ := List.append_eq_nil_iff.mp hnil
    exact ⟨rfl, rfl⟩
  | writing own left =>
    obtain ⟨hown, htext, hnil⟩ := H
    obtain ⟨rfl, rfl⟩ := List.append_eq_nil_iff.mp hnil
    exact ⟨hown, by rw [List.append_nil]; exact htext, rfl⟩
  | logged | claimed | stopping | joining | done => exact (List.append_assoc ..).trans H

structure Accounted (job : ι → Job) (s : State ι) : Prop where
  inBatch : s.logger.InBatch
  calls : ∀ c record, Important job c record →
    Account record.text (partOf (some c) s.stderr) (partOf (some c) s.unwritten) (s.call c)
  exited : s.logger = .exited → ∀ c record, Important job c record →
    partOf (some c) s.unwritten = []

/-- The write did not fail. -/
def Event.Succeeds : Event ι → Prop
  | .writeFails _ | .writevFails => False
  | _ => True

/-- No important record enters the queue behind the logger thread; one that finds it full may come
late. -/
def InTime (job : ι → Job) (s : State ι) (e : Event ι) : Prop :=
  ∀ c record, e = .enqueue c → Important job c record → (tryEnqueueLog s c record).isSome →
    s.logger ≠ .exited

namespace Accounted
variable {job : ι → Job}

theorem init (created : Bool) (logQueue : Nat → Nat) :
    Accounted job (loggerInit created logQueue : State ι) := by
  have hunwritten : (loggerInit created logQueue : State ι).unwritten = [] := by
    cases created <;> rfl
  refine ⟨by cases created <;> trivial, fun c record _ => ⟨?_, ?_⟩, fun _ c record _ => ?_⟩
  · cases created <;> rfl
  · rw [hunwritten]
    rfl
  · rw [hunwritten]
    rfl

/-- A step of a call, which may put its record into the output or the queue. -/
theorem callStep (H : Accounted job s) {d : ι} {phase : CallPhase}
    (hcall : t.call = update s.call d phase) (hbatch : t.logger.InBatch)
    (hexit : t.logger = .exited → s.logger = .exited)
    (hother : ∀ c, c ≠ d → partOf (some c) t.stderr = partOf (some c) s.stderr ∧
      partOf (some c) t.unwritten = partOf (some c) s.unwritten)
    (hown : ∀ record, Important job d record →
      Account record.text (partOf (some d) t.stderr) (partOf (some d) t.unwritten) phase ∧
        (s.logger = .exited → partOf (some d) t.unwritten = [])) : Accounted job t := by
  refine ⟨hbatch, fun c record himp => ?_, fun hleft c record himp => ?_⟩
  · rw [hcall]
    by_cases hc : c = d
    · subst hc
      rw [update_self]
      exact (hown record himp).1
    · rw [update_of_ne hc, (hother c hc).1, (hother c hc).2]
      exact H.calls c record himp
  · by_cases hc : c = d
    · subst hc
      exact (hown record himp).2 (hexit hleft)
    · rw [(hother c hc).2]
      exact H.exited (hexit hleft) c record himp

/-- A step of a call that writes nothing. -/
theorem phaseStep (H : Accounted job s) {d : ι} {phase : CallPhase}
    (hcall : t.call = update s.call d phase) (hlogger : t.logger.InBatch)
    (hexit : t.logger = .exited → s.logger = .exited) (hout : t.stderr = s.stderr)
    (hrest : t.unwritten = s.unwritten)
    (hown : ∀ record out rest, Important job d record → Account record.text out rest (s.call d) →
      Account record.text out rest phase) : Accounted job t := by
  refine H.callStep hcall hlogger hexit (fun c _ => by rw [hout, hrest]; exact ⟨rfl, rfl⟩) ?_
  intro record himp
  rw [hout, hrest]
  exact ⟨hown _ _ _ himp (H.calls d record himp), fun hleft => H.exited hleft d record himp⟩

/-- A step of the logger thread. -/
theorem loggerStep (H : Accounted job s) (hcall : t.call = s.call) (hbatch : t.logger.InBatch)
    (hmove : ∀ c, ∃ moved, partOf c t.stderr = partOf c s.stderr ++ moved ∧
      partOf c s.unwritten = moved ++ partOf c t.unwritten)
    (hexit : t.logger = .exited → t.unwritten = []) : Accounted job t := by
  refine ⟨hbatch, fun c record himp => ?_, fun hleft c record _ => ?_⟩
  · obtain ⟨moved, hout, hrest⟩ := hmove (some c)
    have haccount := H.calls c record himp
    rw [hrest] at haccount
    rw [hcall, hout]
    exact haccount.move
  · rw [hexit hleft]
    rfl

/-- A step of a call that changes nothing but where the call is. -/
theorem setCall (H : Accounted job s) {d : ι} {phase : CallPhase}
    (hown : ∀ record out rest, Important job d record → Account record.text out rest (s.call d) →
      Account record.text out rest phase) : Accounted job (setCall s d phase) :=
  H.phaseStep rfl H.inBatch id rfl rfl hown

theorem enqueue (H : Accounted job s) (hpool : Pooled s) {c : ι} {level : LogLevel}
    {record : Record} (hjob : job c = .log level record) (hphase : s.call c = .tested)
    (hfree : 0 < s.freeTop) (hcount : s.logCount < poolSize)
    (hin : ∀ record, Important job c record → s.logger ≠ .exited) :
    Accounted job (Logger.setCall (enqueueLog s c record) c .logged) := by
  have hrest : (Logger.setCall (enqueueLog s c record) c .logged).unwritten =
      s.unwritten ++ [(some c, record.text)] := unwritten_enqueueLog hpool H.inBatch hfree hcount
  refine H.callStep rfl ?_ ?_ (fun d hd => ⟨rfl, ?_⟩) fun record' himp => ⟨?_, ?_⟩
  · show (if s.logCount + 1 = 1 then s.logger.signal else s.logger).InBatch
    split
    · exact H.inBatch.signal
    · exact H.inBatch
  · show (if s.logCount + 1 = 1 then s.logger.signal else s.logger) = .exited → _
    split
    · exact LoggerPhase.exited_of_signal
    · exact id
  · rw [hrest, partOf_append, partOf_cons_of_ne fun h => hd (Option.some.inj h).symm, partOf_nil,
      List.append_nil]
  · have haccount := H.calls c record' himp
    obtain ⟨level', hjob', -⟩ := himp
    cases hjob.symm.trans hjob'
    rw [hphase] at haccount
    obtain ⟨hout, hnil⟩ := haccount
    rw [hrest, partOf_append, hnil, partOf_cons_self]
    show partOf (some c) s.stderr ++ _ = _
    rw [hout, partOf_nil, List.append_nil]
    rfl
  · exact fun hleft => absurd hleft (hin record' himp)

theorem write (H : Accounted job s) {c : ι} {own : Bool} {rest : Bytes} {n : Nat}
    (hphase : s.call c = .writing own rest) : Accounted job (robustWrite s c own rest n) := by
  have hout : (robustWrite s c own rest n).stderr =
      s.stderr ++ [(if own then some c else none, rest.take n)] := rfl
  refine H.callStep rfl H.inBatch id (fun d hd => ⟨?_, rfl⟩) fun record himp => ?_
  · have htag : (if own then some c else none) ≠ some d := by
      split
      · exact fun h => hd (Option.some.inj h).symm
      · nofun
    rw [hout, partOf_append, partOf_cons_of_ne htag, partOf_nil, List.append_nil]
  · have haccount := H.calls c record himp
    rw [hphase] at haccount
    obtain ⟨rfl, htext, hnil⟩ := haccount
    refine ⟨⟨rfl, ?_, hnil⟩, fun _ => hnil⟩
    rw [hout, partOf_append, if_pos rfl, partOf_cons_self, partOf_nil, List.append_nil,
      List.append_assoc, List.take_append_drop]
    exact htext

theorem fallBack (H : Accounted job s) {c : ι} {level : LogLevel} {record : Record}
    (hjob : job c = .log level record) (hphase : s.call c = .refused) :
    Accounted job (fallbackWriteLog s c level record) := by
  unfold fallbackWriteLog
  split
  · refine H.setCall fun record' out rest himp haccount => ?_
    obtain ⟨level', hjob', -⟩ := himp
    cases hjob.symm.trans hjob'
    rw [hphase] at haccount
    obtain ⟨rfl, rfl⟩ := haccount
    exact ⟨rfl, rfl, rfl⟩
  · next hinfo =>
    refine H.phaseStep rfl H.inBatch id rfl rfl fun record' out rest himp _ => ?_
    obtain ⟨level', hjob', hlevel⟩ := himp
    cases hjob.symm.trans hjob'
    exact absurd hlevel hinfo

/-- The exchange at the head of `logger_shutdown`, by a call that has nothing left to write. -/
theorem claim (H : Accounted job s) {c : ι}
    (hown : ∀ record out rest, Important job c record → Account record.text out rest (s.call c) →
      out ++ rest = record.text) : Accounted job (claimShutdown s c) := by
  unfold claimShutdown
  split
  · exact H.setCall hown
  · exact H.phaseStep rfl H.inBatch id rfl rfl hown

theorem look (H : Accounted job s) (hpool : Pooled s) (hlogger : s.logger = .ready) :
    Accounted job (loggerLook s) := by
  have hunwritten : s.unwritten = s.queued.map s.piece := by
    rw [State.unwritten, hlogger]
    rfl
  unfold loggerLook
  split
  · next hcount =>
    have hqueued : s.queued = [] := List.eq_nil_of_length_eq_zero (s.length_queued.trans hcount)
    have hnil : ({ s with logger := if s.loggerRunning then .waiting else .exited } :
        State ι).unwritten = [] := by
      have hpending : (if s.loggerRunning then LoggerPhase.waiting else .exited).pending
          s.logBuffers = [] := by split <;> rfl
      show LoggerPhase.pending _ _ ++ s.queued.map s.piece = []
      rw [hpending, hqueued]
      rfl
    refine H.loggerStep rfl ?_ (fun c => ⟨[], (List.append_nil _).symm, ?_⟩) fun _ => hnil
    · dsimp only
      split <;> trivial
    · rw [hunwritten, hqueued, hnil]
      rfl
  · obtain ⟨hring, -⟩ := dequeueBatch_spec s.logQueue batchSize hpool.tail s.logCount
    refine H.loggerStep rfl trivial (fun c => ⟨[], (List.append_nil _).symm, ?_⟩) nofun
    rw [hunwritten, State.queued, hring, List.map_append]
    rfl

theorem writev (H : Accounted job s) {batch : List Nat} {iov : List Iovec} {written total n : Nat}
    (hlogger : s.logger = .writing batch iov written total) (hn : n ≤ iovLen iov) :
    Accounted job (loggerWritev s batch iov written total n) := by
  have hin := H.inBatch
  rw [hlogger] at hin
  refine H.loggerStep rfl ⟨fun v hv => ?_, ?_⟩ (fun c => ?_) nofun
  · obtain ⟨v', hv', hbuffer⟩ := buffer_of_mem_advance hv
    exact hbuffer ▸ hin.1 v' hv'
  · have := iovLen_advance hn
    have := hin.2
    omega
  · refine ⟨partOf c ((firstIovecs iov n).map (Iovec.read s.logBuffers)), partOf_append .., ?_⟩
    rw [State.unwritten, hlogger, partOf_append]
    show partOf c (iov.map (Iovec.read s.logBuffers)) ++ _ = _
    rw [partOf_advance c s.logBuffers iov n, List.append_assoc, ← partOf_append]
    rfl

/-- The loop of `write_batch_iovecs` ends when everything is written. -/
theorem flushed (H : Accounted job s) {batch : List Nat} {iov : List Iovec} {written total : Nat}
    (hlogger : s.logger = .writing batch iov written total) (hdone : ¬(written < total ∧ iov ≠ [])) :
    Accounted job { s with logger := .returning batch } := by
  have hin := H.inBatch
  rw [hlogger] at hin
  have hempty : ∀ v ∈ iov, v.len = 0 := by
    intro v hv
    have hle := len_le_iovLen hv
    have hsum := hin.2
    have hwritten : total ≤ written := Nat.le_of_not_lt fun h => hdone ⟨h, List.ne_nil_of_mem hv⟩
    omega
  refine H.loggerStep rfl trivial (fun c => ⟨[], (List.append_nil _).symm, ?_⟩) nofun
  have hnil : partOf c (iov.map (Iovec.read s.logBuffers)) = [] := by
    refine partOf_of_forall_nil fun p hp => ?_
    obtain ⟨v, hv, rfl⟩ := List.mem_map.mp hp
    rw [Iovec.read, hempty v hv]
    rfl
  rw [State.unwritten, hlogger, partOf_append]
  exact congrArg (· ++ _) hnil

/-- The logger thread moves on and writes nothing. -/
theorem sameOutput (H : Accounted job s) {phase : LoggerPhase} (hbatch : phase.InBatch)
    (hexit : phase ≠ .exited) (hpending : phase.pending s.logBuffers = s.logger.pending s.logBuffers) :
    Accounted job { s with logger := phase } := by
  refine H.loggerStep rfl hbatch (fun c => ⟨[], (List.append_nil _).symm, ?_⟩) fun h => absurd h hexit
  rw [State.unwritten, ← hpending]
  rfl

theorem gather (H : Accounted job s) {batch : List Nat} (hlogger : s.logger = .taken batch) :
    Accounted job (loggerGather s batch) := by
  refine H.sameOutput ⟨fun v hv => ?_, Nat.zero_add _⟩ nofun ?_
  · obtain ⟨entry, hentry, rfl⟩ := List.mem_map.mp hv
    exact hentry
  · rw [hlogger]
    exact List.map_map

theorem giveBack (H : Accounted job s) {batch : List Nat} (hlogger : s.logger = .returning batch) :
    Accounted job (returnBatchToPool s batch) := by
  refine H.loggerStep rfl trivial (fun c => ⟨[], (List.append_nil _).symm, ?_⟩) nofun
  rw [State.unwritten, hlogger]
  rfl

theorem step (H : Accounted job s) (hpool : Pooled s) {e : Event ι} (hok : e.Succeeds)
    (hin : InTime job s e) (h : Step job s e t) : Accounted job t := by
  cases h with
  | test _ hphase =>
    refine H.setCall fun record out rest _ haccount => ?_
    rw [hphase] at haccount
    split <;> exact haccount
  | enqueue hjob hphase htry =>
    obtain ⟨hfree, hcount, rfl⟩ := tryEnqueueLog_eq_some htry
    refine H.enqueue hpool hjob hphase hfree hcount fun record himp => hin _ record rfl himp ?_
    obtain ⟨level', hlog, -⟩ := himp
    cases hjob.symm.trans hlog
    rw [htry]
    rfl
  | full _ hphase =>
    refine H.setCall fun record out rest _ haccount => ?_
    rw [hphase] at haccount
    exact haccount
  | fallBack hjob hphase => exact H.fallBack hjob hphase
  | write hphase => exact H.write hphase
  | writeFails => exact hok.elim
  | wrote hphase =>
    refine H.setCall fun record out rest _ haccount => ?_
    rw [hphase] at haccount
    obtain ⟨-, htext, rfl⟩ := haccount
    exact htext
  | leave _ _ hphase | join hphase =>
    refine H.setCall fun record out rest _ haccount => ?_
    rw [hphase] at haccount
    exact haccount
  | load hphase =>
    refine H.setCall fun record out rest _ haccount => ?_
    rw [hphase] at haccount
    split <;> exact haccount
  | claim hjob =>
    refine H.claim fun record out rest himp _ => ?_
    obtain ⟨level, hlog, -⟩ := himp
    cases hjob.symm.trans hlog
  | claimFatal _ hphase =>
    refine H.claim fun record out rest _ haccount => ?_
    rw [hphase] at haccount
    exact haccount
  | stop hphase =>
    refine H.phaseStep rfl H.inBatch.signal LoggerPhase.exited_of_signal rfl ?_ ?_
    · exact congrArg (· ++ _) (LoggerPhase.pending_signal ..)
    · intro record out rest _ haccount
      rw [hphase] at haccount
      exact haccount
  | wake hlogger => exact H.sameOutput trivial nofun (by rw [hlogger]; rfl)
  | look hlogger => exact H.look hpool hlogger
  | gather hlogger => exact H.gather hlogger
  | writev hlogger _ _ _ hn => exact H.writev hlogger hn
  | writevFails => exact hok.elim
  | flushed hlogger hdone => exact H.flushed hlogger hdone
  | giveBack hlogger => exact H.giveBack hlogger

end Accounted

/-- When the logger thread has left, an important call that is done has its record in the output
once, provided that no important record was queued behind the logger thread. -/
theorem important_written_once {job : ι → Job}
    (H : (system job).Reachable (fun s e => e.Succeeds ∧ InTime job s e) s)
    (hexited : s.logger = .exited) {c : ι} {level : LogLevel} {record : Record} (hjob : job c = .log level record)
    (hlevel : level ≠ .info) (hdone : s.call c = .done) :
    partOf (some c) s.stderr = record.text := by
  have haccounted : Accounted job s := by
    refine H.invariant (I := Accounted job) ?_ fun s e t hs ih hG h =>
      ih.step (reachable_pooled hs) hG.1 hG.2 h
    rintro _ ⟨created, logQueue, rfl⟩
    exact .init created logQueue
  have himp : Important job c record := ⟨level, hjob, hlevel⟩
  have haccount := haccounted.calls c record himp
  rw [hdone, haccounted.exited hexited c record himp] at haccount
  exact (List.append_nil _).symm.trans haccount

end

/-- A warning, and a shutdown. -/
def twoCalls : Bool → Job
  | false => .log .warn warnRecord
  | true => .shutdown

/-- The logger is shut down before the first call. -/
def stoppedLogger : State Bool :=
  loggerLook (stopLogger (setCall (claimShutdown (loggerInit true id) true) true .stopping) true)

theorem important_written_once_stopped :
    let s := setCall (setCall (robustWrite (fallbackWriteLog (setCall stoppedLogger false .refused)
      false .warn warnRecord) false true warnRecord.text 10) false .logged) false .done
    s.logger = .exited ∧ partOf (some false) s.stderr = warnRecord.text := by
  intro s
  have hstopped : (system twoCalls).Reachable (fun s e => e.Succeeds ∧ InTime twoCalls s e)
      stoppedLogger := by
    refine .next ?_ (.look rfl) ⟨trivial, nofun⟩
    refine .next ?_ (.stop rfl) ⟨trivial, nofun⟩
    refine .next ?_ (.load rfl) ⟨trivial, nofun⟩
    refine .next ?_ (.claim rfl rfl) ⟨trivial, nofun⟩
    exact .init ⟨true, id, rfl⟩
  have hdone : (system twoCalls).Reachable (fun s e => e.Succeeds ∧ InTime twoCalls s e) s := by
    refine .next ?_ (.leave rfl nofun rfl) ⟨trivial, nofun⟩
    refine .next ?_ (.wrote rfl) ⟨trivial, nofun⟩
    refine .next ?_ (.write rfl (by decide) (by decide)) ⟨trivial, nofun⟩
    refine .next ?_ (.fallBack rfl rfl) ⟨trivial, nofun⟩
    exact hstopped.next (.test rfl rfl) ⟨trivial, nofun⟩
  have hjob : twoCalls false = .log .warn warnRecord := rfl
  exact ⟨rfl, important_written_once hdone rfl hjob nofun rfl⟩

/-- The thread that logs has found the logger running, and goes on when the logger thread has left. -/
theorem late_warning_is_lost :
    ∃ s : State Bool, (system twoCalls).Reachable (fun _ e => e.Succeeds) s ∧ s.logger = .exited ∧
      s.call false = .done ∧ partOf (some false) s.stderr = [] := by
  have hlooked : (system twoCalls).Reachable (fun _ e => e.Succeeds) (loggerLook (stopLogger
      (setCall (claimShutdown (setCall (loggerInit true id) false .tested) true) true .stopping)
        true)) := by
    refine .next ?_ (.look rfl) trivial
    refine .next ?_ (.stop rfl) trivial
    refine .next ?_ (.load rfl) trivial
    refine .next ?_ (.claim rfl rfl) trivial
    refine .next ?_ (.test rfl rfl) trivial
    exact .init ⟨true, id, rfl⟩
  have henqueued := hlooked.next (.enqueue (c := false) rfl rfl (if_pos ⟨by decide, by decide⟩)) trivial
  exact ⟨_, henqueued.next (.leave (c := false) rfl nofun rfl) trivial, rfl, rfl, rfl⟩

end ApiServer.Logger
