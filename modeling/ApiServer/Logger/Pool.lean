import ApiServer.Logger
import Mathlib.Data.List.Perm.Basic
import Mathlib.Data.List.Nodup

/-!
# The buffers of the logger

A buffer is free, in the ring or in the batch of the logger thread, and a step moves it from one of
these places to the next. A thread copies a record only to a buffer it has taken off the free stack,
so the records in the ring and in the batch stay as they were copied, in the order of the ring.
-/

namespace ApiServer.Logger
open Bytes Function

section
variable {ι : Type} (s : State ι)

/-- The free stack below `g_free_top`. -/
def State.free : List Nat := stackOf s.freeStack s.freeTop

/-- The window of the ring. -/
def State.queued : List Nat := ringOf poolSize s.logQueue s.logTail s.logCount

def State.piece (entry : Nat) : Option ι × Bytes := (s.logBuffers entry).piece

@[simp] theorem State.length_free : s.free.length = s.freeTop := length_stackOf ..

@[simp] theorem State.length_queued : s.queued.length = s.logCount := length_ringOf

end

section
variable {ι : Type} {s t : State ι}

structure Pooled (s : State ι) : Prop where
  places : (s.free ++ s.queued ++ s.logger.batch).Perm (List.range poolSize)
  head : s.logHead = (s.logTail + s.logCount) % poolSize
  tail : s.logTail < poolSize
  order : s.left ++ (s.logger.batch ++ s.queued).map s.piece = s.enqueued
  signalled : s.logger = .waiting → s.logCount = 0

/-! ## The loops -/

theorem dequeueBatch_spec (logQueue : Nat → Nat) (room : Nat) {tail : Nat} (htail : tail < poolSize)
    (count : Nat) :
    let r := dequeueBatch logQueue room tail count
    ringOf poolSize logQueue tail count = r.1 ++ ringOf poolSize logQueue r.2.1 r.2.2 ∧
      r.2.1 < poolSize ∧ (r.2.1 + r.2.2) % poolSize = (tail + count) % poolSize := by
  induction room generalizing tail count with
  | zero => exact ⟨rfl, htail, rfl⟩
  | succ room ih =>
    rw [dequeueBatch]
    cases count with
    | zero => exact ⟨rfl, htail, rfl⟩
    | succ count =>
      rw [if_pos (Nat.succ_pos count), Nat.add_sub_cancel]
      obtain ⟨hring, hlt, hmod⟩ := ih (Nat.mod_lt (tail + 1) (by decide : 0 < poolSize)) count
      refine ⟨?_, hlt, ?_⟩
      · rw [ringOf_pop htail, hring]
        rfl
      · rw [hmod, Nat.mod_add_mod]
        congr 1
        omega

theorem returnBatch_spec {batch : List Nat} {freeStack : Nat → Nat} {freeTop : Nat}
    (h : freeTop + batch.length ≤ poolSize) :
    let r := returnBatch batch freeStack freeTop
    stackOf r.1 r.2 = stackOf freeStack freeTop ++ batch ∧ r.2 = freeTop + batch.length := by
  induction batch generalizing freeStack freeTop with
  | nil => exact ⟨(List.append_nil _).symm, rfl⟩
  | cons entry batch ih =>
    rw [List.length_cons] at h
    rw [returnBatch, if_pos (by omega)]
    obtain ⟨hstack, htop⟩ := @ih (update freeStack freeTop entry) (freeTop + 1) (by omega)
    refine ⟨?_, ?_⟩
    · rw [hstack, stackOf_push, List.append_assoc]
      rfl
    · rw [htop, List.length_cons]
      omega

/-! ## The steps -/

namespace Pooled

theorem sizes (H : Pooled s) : s.freeTop + s.logCount + s.logger.batch.length = poolSize := by
  have h := H.places.length_eq
  rwa [List.length_append, List.length_append, s.length_free, s.length_queued,
    List.length_range] at h

theorem nodup (H : Pooled s) : (s.free ++ s.queued ++ s.logger.batch).Nodup :=
  H.places.nodup_iff.mpr List.nodup_range

theorem init (created : Bool) (logQueue : Nat → Nat) :
    Pooled (loggerInit created logQueue : State ι) := by
  have hbatch : (loggerInit created logQueue : State ι).logger.batch = [] := by
    cases created <;> rfl
  have hqueued : (loggerInit created logQueue : State ι).queued = [] := rfl
  have hfree : (loggerInit created logQueue : State ι).free = List.range poolSize :=
    List.map_id _
  refine ⟨?_, rfl, show 0 < poolSize by decide, ?_, fun _ => rfl⟩
  · rw [hfree, hqueued, hbatch, List.append_nil, List.append_nil]
  · rw [hqueued, hbatch]
    rfl

/-- Steps that move no buffer. -/
theorem congr (H : Pooled s) (hbuffers : t.logBuffers = s.logBuffers)
    (hfree : t.freeStack = s.freeStack ∧ t.freeTop = s.freeTop)
    (hqueue : t.logQueue = s.logQueue ∧ t.logHead = s.logHead ∧ t.logTail = s.logTail ∧
      t.logCount = s.logCount)
    (hhist : t.left = s.left ∧ t.enqueued = s.enqueued) (hbatch : t.logger.batch = s.logger.batch)
    (hwait : t.logger = .waiting → s.logCount = 0) : Pooled t := by
  obtain ⟨hstack, htop⟩ := hfree
  obtain ⟨hslots, hhead, htail, hcount⟩ := hqueue
  have hf : t.free = s.free := by rw [State.free, hstack, htop]; rfl
  have hq : t.queued = s.queued := by rw [State.queued, hslots, htail, hcount]; rfl
  have hp : t.piece = s.piece := by
    funext entry
    rw [State.piece, hbuffers]
    rfl
  refine ⟨?_, ?_, ?_, ?_, ?_⟩
  · rw [hf, hq, hbatch]
    exact H.places
  · rw [hhead, htail, hcount]
    exact H.head
  · rw [htail]
    exact H.tail
  · rw [hhist.1, hhist.2, hbatch, hq, hp]
    exact H.order
  · rw [hcount]
    exact hwait

theorem phase (H : Pooled s) {phase : LoggerPhase} (hbatch : phase.batch = s.logger.batch)
    (hwait : phase ≠ .waiting) : Pooled { s with logger := phase } :=
  H.congr rfl ⟨rfl, rfl⟩ ⟨rfl, rfl, rfl, rfl⟩ ⟨rfl, rfl⟩ hbatch fun h => absurd h hwait

/-- Steps of the calls outside the mutex. -/
theorem frame (H : Pooled s) (call : ι → CallPhase) (stderr : List (Option ι × Bytes))
    (droppedLogs : Nat) (shutdownDone : Bool) :
    Pooled { s with call, stderr, droppedLogs, shutdownDone } :=
  H.congr rfl ⟨rfl, rfl⟩ ⟨rfl, rfl, rfl, rfl⟩ ⟨rfl, rfl⟩ rfl H.signalled

/-- A buffer that is free is in no other place. -/
theorem topEntry_notMem (H : Pooled s) (hfree : 0 < s.freeTop) :
    topEntry s ∉ s.logger.batch ++ s.queued := by
  have hmem : topEntry s ∈ s.free := by
    rw [State.free, ← Nat.sub_add_cancel hfree, stackOf_succ]
    exact List.mem_append_right _ (List.mem_singleton_self _)
  have hnd := H.nodup
  rw [List.append_assoc, List.nodup_append] at hnd
  intro hin
  refine hnd.2.2 _ hmem _ ?_ rfl
  rw [List.mem_append] at hin ⊢
  exact hin.symm

end Pooled

section
variable {c : ι} {record : Record}

theorem free_enqueueLog (h : 0 < s.freeTop) :
    s.free = (enqueueLog s c record).free ++ [topEntry s] := by
  rw [State.free, ← Nat.sub_add_cancel h, stackOf_succ]
  rfl

theorem queued_enqueueLog (H : Pooled s) (h : s.logCount < poolSize) :
    (enqueueLog s c record).queued = s.queued ++ [topEntry s] := by
  have hpush := @ringOf_push _ s.logQueue poolSize s.logTail s.logCount h (topEntry s)
  rw [← H.head] at hpush
  exact hpush

theorem piece_enqueueLog : (enqueueLog s c record).piece (topEntry s) = (some c, record.text) := by
  simp [State.piece, enqueueLog, LogEntry.piece]

/-- The copy of the record changes no other record. -/
theorem buffers_enqueueLog (H : Pooled s) (hfree : 0 < s.freeTop) :
    ∀ entry ∈ s.logger.batch ++ s.queued,
      (enqueueLog s c record).logBuffers entry = s.logBuffers entry := by
  intro entry hentry
  have hne : entry ≠ topEntry s := fun e => H.topEntry_notMem hfree (e ▸ hentry)
  exact update_of_ne hne ..

theorem batch_signal (phase : LoggerPhase) : phase.signal.batch = phase.batch := by
  cases phase <;> rfl

theorem batch_enqueueLog : (enqueueLog s c record).logger.batch = s.logger.batch := by
  simp only [enqueueLog]
  split
  · exact batch_signal _
  · rfl

theorem tryEnqueueLog_eq_some (h : tryEnqueueLog s c record = some t) :
    0 < s.freeTop ∧ s.logCount < poolSize ∧ t = enqueueLog s c record := by
  unfold tryEnqueueLog at h
  split at h
  · next hroom => exact ⟨hroom.1, hroom.2, (Option.some.inj h).symm⟩
  · cases h

end

namespace Pooled

theorem enqueue (H : Pooled s) {c : ι} {record : Record} (hfree : 0 < s.freeTop)
    (hcount : s.logCount < poolSize) : Pooled (enqueueLog s c record) := by
  have hqueued := @queued_enqueueLog _ _ c record H hcount
  refine ⟨?_, ?_, H.tail, ?_, ?_⟩
  · refine List.Perm.trans ?_ H.places
    rw [hqueued, batch_enqueueLog, @free_enqueueLog _ s c record hfree, List.perm_iff_count]
    intro entry
    simp only [List.count_append]
    omega
  · show (s.logHead + 1) % poolSize = (s.logTail + (s.logCount + 1)) % poolSize
    rw [H.head, Nat.mod_add_mod, Nat.add_assoc]
  · have hsame : ∀ entry ∈ s.logger.batch ++ s.queued,
        (enqueueLog s c record).piece entry = s.piece entry := fun entry hentry =>
      congrArg LogEntry.piece (buffers_enqueueLog H hfree entry hentry)
    rw [hqueued, batch_enqueueLog, ← List.append_assoc, List.map_append, List.map_congr_left hsame,
      List.map_singleton, piece_enqueueLog, ← List.append_assoc]
    exact congrArg (· ++ _) H.order
  · -- the logger thread is signalled when the count leaves 0
    intro hwait
    simp only [enqueueLog] at hwait
    split at hwait
    · cases hphase : s.logger <;> rw [hphase] at hwait <;> cases hwait
    · next hne => exact absurd (congrArg (· + 1) (H.signalled hwait)) hne

theorem look (H : Pooled s) (hlogger : s.logger = .ready) : Pooled (loggerLook s) := by
  have hbatch : s.logger.batch = [] := by rw [hlogger]; rfl
  unfold loggerLook
  split
  · next hcount =>
    refine H.congr rfl ⟨rfl, rfl⟩ ⟨rfl, rfl, rfl, rfl⟩ ⟨rfl, rfl⟩ ?_ fun _ => hcount
    rw [hbatch]
    dsimp only
    split <;> rfl
  · obtain ⟨hring, hlt, hmod⟩ := dequeueBatch_spec s.logQueue batchSize H.tail s.logCount
    have hplaces := H.places
    have horder := H.order
    rw [hbatch, List.append_nil, State.queued, hring] at hplaces
    rw [hbatch, List.nil_append, State.queued, hring] at horder
    refine ⟨?_, H.head.trans hmod.symm, hlt, horder, nofun⟩
    refine List.Perm.trans ?_ hplaces
    rw [List.append_assoc]
    exact List.perm_append_comm.append_left _

theorem giveBack (H : Pooled s) {batch : List Nat} (hlogger : s.logger = .returning batch) :
    (returnBatchToPool s batch).free = s.free ++ batch ∧ Pooled (returnBatchToPool s batch) := by
  have hbatch : s.logger.batch = batch := by rw [hlogger]; rfl
  have hsizes := H.sizes
  rw [hbatch] at hsizes
  obtain ⟨hstack, -⟩ := @returnBatch_spec batch s.freeStack s.freeTop (by omega)
  refine ⟨hstack, ?_, H.head, H.tail, ?_, nofun⟩
  · refine List.Perm.trans ?_ H.places
    have hfree : (returnBatchToPool s batch).free = s.free ++ batch := hstack
    have hqueued : (returnBatchToPool s batch).queued = s.queued := rfl
    have hnone : (returnBatchToPool s batch).logger.batch = [] := rfl
    rw [hfree, hqueued, hnone, hbatch, List.append_nil, List.append_assoc, List.append_assoc]
    exact List.perm_append_comm.append_left _
  · have horder := H.order
    rw [hbatch, List.map_append, ← List.append_assoc] at horder
    exact horder

end Pooled

end

section
variable {ι : Type} [DecidableEq ι] {job : ι → Job} {s t : State ι} {e : Event ι}

theorem Pooled.step (H : Pooled s) (h : Step job s e t) : Pooled t := by
  cases h with
  | test | full | write | writeFails | wrote | leave | load | join => exact H.frame ..
  | enqueue _ _ htry =>
    obtain ⟨hfree, hcount, rfl⟩ := tryEnqueueLog_eq_some htry
    exact (H.enqueue hfree hcount).frame ..
  | fallBack =>
    unfold fallbackWriteLog
    split <;> exact H.frame ..
  | claim | claimFatal =>
    unfold claimShutdown
    split <;> exact H.frame ..
  | stop =>
    refine H.congr rfl ⟨rfl, rfl⟩ ⟨rfl, rfl, rfl, rfl⟩ ⟨rfl, rfl⟩ (batch_signal s.logger)
      fun hwait => ?_
    simp only [stopLogger] at hwait
    cases hphase : s.logger <;> rw [hphase] at hwait <;> cases hwait
  | wake hlogger => exact H.phase (by rw [hlogger]; rfl) nofun
  | look hlogger => exact H.look hlogger
  | gather hlogger => exact H.phase (by rw [hlogger]; rfl) nofun
  | writev hlogger =>
    exact H.congr rfl ⟨rfl, rfl⟩ ⟨rfl, rfl, rfl, rfl⟩ ⟨rfl, rfl⟩ (by rw [hlogger]; rfl) nofun
  | writevFails hlogger => exact H.phase (by rw [hlogger]; rfl) nofun
  | flushed hlogger => exact H.phase (by rw [hlogger]; rfl) nofun
  | giveBack hlogger => exact (H.giveBack hlogger).2

theorem reachable_pooled {G : State ι → Event ι → Prop} (H : (system job).Reachable G s) :
    Pooled s := by
  refine H.invariant (I := Pooled) ?_ fun s e t _ ih _ h => ih.step h
  rintro _ ⟨created, logQueue, rfl⟩
  exact .init created logQueue

/-- In every state each buffer is in one place, the indices of the ring agree with its count, no
buffer is dropped, records leave as they came, and the logger thread does not sleep over a record. -/
theorem log_pool_conserved (H : (system job).Reachable (fun _ _ => True) s) :
    (s.free ++ s.queued ++ s.logger.batch).Perm (List.range poolSize) ∧
      s.logHead = (s.logTail + s.logCount) % poolSize ∧
      s.freeTop + s.logCount + s.logger.batch.length = poolSize ∧
      (∀ batch, s.logger = .returning batch →
        (returnBatchToPool s batch).free = s.free ++ batch) ∧
      (0 < s.freeTop → s.logCount < poolSize) ∧
      s.left ++ (s.logger.batch ++ s.queued).map s.piece = s.enqueued ∧
      (s.logger = .waiting → s.logCount = 0) := by
  have hpool := reachable_pooled H
  have hsizes := hpool.sizes
  exact ⟨hpool.places, hpool.head, hsizes, fun batch h => (hpool.giveBack h).1, by omega, hpool.order,
    hpool.signalled⟩

end

/-- A record of ten bytes. -/
def warnRecord : Record := ⟨bytes "disk full\n", by decide, by decide⟩

theorem log_pool_conserved_one :
    let s := setCall (enqueueLog (setCall (loggerInit true id) () .tested) () warnRecord) () .logged
    s.logCount = 1 ∧ s.freeTop = 4095 ∧
      (s.free ++ s.queued ++ s.logger.batch).Perm (List.range poolSize) := by
  let job : Unit → Job := fun _ => .log .warn warnRecord
  have hinit : (system job).Reachable (fun _ _ => True) (loggerInit true id) :=
    .init ⟨true, id, rfl⟩
  have htested : (system job).Reachable (fun _ _ => True) (setCall (loggerInit true id) () .tested) :=
    hinit.step trivial (.test rfl rfl)
  refine ⟨rfl, rfl, (log_pool_conserved (htested.step trivial (.enqueue rfl rfl ?_))).1⟩
  exact if_pos ⟨by decide, by decide⟩

end ApiServer.Logger
