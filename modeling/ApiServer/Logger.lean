import ApiServer.Lib.Pieces
import ApiServer.Lib.Ring
import ApiServer.Lib.Transition
import ApiServer.Logger.Record

/-!
# The queue of the logger (`lib/logger.c`)

Threads that log take a buffer off a stack of free ones, copy their record to it and put it into a
ring. The logger thread takes the buffers out in batches, writes them and returns them to the stack.
`g_logger_running` is read outside the mutex by the threads that log, and a thread that finds the
logger stopped or no buffer free writes its record itself.

A section under `g_log_mutex`, an access to an atomic variable outside it and a `write` or `writev`
are one step each. `g_logger_running` is only stored to under the mutex, so a section reads one value
of it. A `write` that is interrupted or returns 0 is tried again and is no step here.
-/

namespace ApiServer.Logger
open Bytes Json Function

/-- `POOL_SIZE`. -/
def poolSize : Nat := 4096

/-- `BATCH_SIZE`. -/
def batchSize : Nat := 128

/-- A call of `logger_log`, with its record, or of `logger_shutdown`. -/
inductive Job where
  | log (level : LogLevel) (record : Record)
  | shutdown

/-- `log_entry_t`. The owner is history: the call whose record was copied here last. -/
structure LogEntry (ι : Type) where
  len : Nat := 0
  data : Bytes := .replicate 4096 0
  owner : Option ι := none

def LogEntry.piece (entry : LogEntry ι) :
    Option ι × Bytes := (entry.owner, entry.data.take entry.len)

/-- A part of the `data` of a buffer. -/
structure Iovec where
  buffer : Nat
  offset : Nat
  len : Nat

def Iovec.read (logBuffers : Nat → LogEntry ι) (v : Iovec) : Option ι × Bytes :=
  ((logBuffers v.buffer).owner, ((logBuffers v.buffer).data.drop v.offset).take v.len)

/-- Where the logger thread is in `logger_thread_func`. -/
inductive LoggerPhase where
  /-- `pthread_create` has failed. -/
  | absent
  /-- At the mutex, at the head of the loop or woken from its wait. -/
  | ready
  /-- In `pthread_cond_wait`, not signalled. -/
  | waiting
  | taken (batch : List Nat)
  /-- In `write_batch_iovecs`; `iov` starts at `iov_offset`. -/
  | writing (batch : List Nat) (iov : List Iovec) (written total : Nat)
  /-- In front of `return_batch_to_pool`. -/
  | returning (batch : List Nat)
  | exited

/-- `pthread_cond_signal` and `pthread_cond_broadcast`: no other thread waits. -/
def LoggerPhase.signal : LoggerPhase → LoggerPhase
  | .waiting => .ready
  | phase => phase

/-- The buffers that the logger thread has taken. -/
def LoggerPhase.batch : LoggerPhase → List Nat
  | .taken batch | .writing batch _ _ _ | .returning batch => batch
  | .absent | .ready | .waiting | .exited => []

/-- Where a call is. -/
inductive CallPhase where
  | start
  /-- `try_enqueue_log` has found the logger running. -/
  | tested
  /-- `try_enqueue_log` has returned false. -/
  | refused
  /-- In `robust_write`, with a record of its own or with the count of dropped records. -/
  | writing (own : Bool) (rest : Bytes)
  /-- Done with the record. -/
  | logged
  /-- `logger_shutdown` has exchanged `g_shutdown_done`. -/
  | claimed
  /-- `logger_shutdown` has found the logger running. -/
  | stopping
  | joining
  /-- Returned, or at `exit` after a fatal record. -/
  | done

structure State (ι : Type) where
  logBuffers : Nat → LogEntry ι := fun _ => {}
  freeStack : Nat → Nat
  freeTop : Nat
  logQueue : Nat → Nat
  logHead : Nat := 0
  logTail : Nat := 0
  logCount : Nat := 0
  loggerRunning : Bool
  droppedLogs : Nat := 0
  shutdownDone : Bool := false
  logger : LoggerPhase
  call : ι → CallPhase := fun _ => .start
  /-- What was written, with the call whose record it is. -/
  stderr : List (Option ι × Bytes) := []
  /-- History: the records in the order in which they entered the queue. -/
  enqueued : List (Option ι × Bytes) := []
  /-- History: the records whose buffers the logger thread has returned. -/
  left : List (Option ι × Bytes) := []

variable {ι : Type}

/-- After `logger_init_routine`. The slots of the queue are not set. -/
def loggerInit (created : Bool) (logQueue : Nat → Nat) : State ι where
  freeStack i := i
  freeTop := poolSize
  logQueue
  loggerRunning := created
  logger := if created then .ready else .absent
  stderr :=
    if created then []
    else [(none, bytes "\x7b\"level\":\"FATAL\",\"msg\":\"Failed to create logger thread\"\x7d\n")]

/-! ## The logger thread -/

/-- The loop that fills the batch, with room for so many. -/
def dequeueBatch (logQueue : Nat → Nat) : Nat → Nat → Nat → List Nat × Nat × Nat
  | 0, tail, count => ([], tail, count)
  | room + 1, tail, count =>
    if 0 < count then
      let rest := dequeueBatch logQueue room ((tail + 1) % poolSize) (count - 1)
      (logQueue tail :: rest.1, rest.2)
    else ([], tail, count)

/-- The loop of `return_batch_to_pool`. -/
def returnBatch : List Nat → (Nat → Nat) → Nat → (Nat → Nat) × Nat
  | [], freeStack, freeTop => (freeStack, freeTop)
  | entry :: batch, freeStack, freeTop =>
    if freeTop < poolSize then returnBatch batch (update freeStack freeTop entry) (freeTop + 1)
    else returnBatch batch freeStack freeTop

def iovLen (iov : List Iovec) : Nat := (iov.map (·.len)).sum

theorem iovLen_cons (v : Iovec) (iov : List Iovec) : iovLen (v :: iov) = v.len + iovLen iov := by
  rw [iovLen, List.map_cons, List.sum_cons]
  rfl

/-- `advance_iovecs`. -/
def advanceIovecs : List Iovec → Nat → List Iovec
  | [], _ => []
  | v :: iov, bytesWritten =>
    if bytesWritten = 0 then v :: iov
    else if v.len ≤ bytesWritten then advanceIovecs iov (bytesWritten - v.len)
    else { v with offset := v.offset + bytesWritten, len := v.len - bytesWritten } :: iov

/-- The parts that a `writev` of so many bytes has written. -/
def firstIovecs : List Iovec → Nat → List Iovec
  | [], _ => []
  | v :: iov, n =>
    if n = 0 then []
    else if v.len ≤ n then v :: firstIovecs iov (n - v.len)
    else [{ v with len := n }]

section
variable (s : State ι)

/-- The first section of the loop. -/
def loggerLook : State ι :=
  if s.logCount = 0 then
    { s with logger := if s.loggerRunning then .waiting else .exited }
  else
    let (batch, tail, count) := dequeueBatch s.logQueue batchSize s.logTail s.logCount
    { s with logTail := tail, logCount := count, logger := .taken batch }

def loggerGather (batch : List Nat) : State ι :=
  let iov := batch.map fun entry => ⟨entry, 0, (s.logBuffers entry).len⟩
  { s with logger := .writing batch iov 0 (iovLen iov) }

/-- A round of `write_batch_iovecs` in which `writev` returns `n`. -/
def loggerWritev (batch : List Nat) (iov : List Iovec) (written total n : Nat) : State ι :=
  { s with
    stderr := s.stderr ++ (firstIovecs iov n).map (Iovec.read s.logBuffers)
    logger := .writing batch (advanceIovecs iov n) (written + n) total }

def returnBatchToPool (batch : List Nat) : State ι :=
  let (freeStack, freeTop) := returnBatch batch s.freeStack s.freeTop
  { s with
    freeStack, freeTop
    logger := .ready
    left := s.left ++ batch.map fun entry => (s.logBuffers entry).piece }

end

/-! ## The threads that log -/

section
variable [DecidableEq ι] (s : State ι) (c : ι)

def setCall (phase : CallPhase) : State ι := { s with call := update s.call c phase }

/-- The buffer that `try_enqueue_log` takes. -/
def topEntry : Nat := s.freeStack (s.freeTop - 1)

/-- `try_enqueue_log`, once there is a free buffer. -/
def enqueueLog (record : Record) : State ι :=
  let entry := topEntry s
  { s with
    freeTop := s.freeTop - 1
    logBuffers := update s.logBuffers entry
      { len := record.text.length
        data := record.text ++ (s.logBuffers entry).data.drop record.text.length
        owner := some c }
    logQueue := update s.logQueue s.logHead entry
    logHead := (s.logHead + 1) % poolSize
    logCount := s.logCount + 1
    logger := if s.logCount + 1 = 1 then s.logger.signal else s.logger
    enqueued := s.enqueued ++ [(some c, record.text)] }

/-- The section of `try_enqueue_log`. -/
def tryEnqueueLog (record : Record) : Option (State ι) :=
  if 0 < s.freeTop ∧ s.logCount < poolSize then some (enqueueLog s c record) else none

/-- `fallback_write_log`, up to its writes. -/
def fallbackWriteLog (level : LogLevel) (record : Record) : State ι :=
  if level ≠ .info then setCall s c (.writing true record.text)
  else
    let drops := (s.droppedLogs + 1) % 2 ^ 64
    let note := snprintf 128 (bytes
      "\x7b\"level\":\"WARN\",\"msg\":\"Logger dropping messages. Total dropped: " ++
        natText drops ++ bytes "\"\x7d\n")
    { setCall s c (if drops % 100 = 0 then .writing false note else .logged) with droppedLogs := drops }

/-- A round of `robust_write` in which `write` returns `n`. -/
def robustWrite (own : Bool) (rest : Bytes) (n : Nat) : State ι :=
  { setCall s c (.writing own (rest.drop n)) with
    stderr := s.stderr ++ [(if own then some c else none, rest.take n)] }

/-- The exchange at the head of `logger_shutdown`. -/
def claimShutdown : State ι :=
  if s.shutdownDone then setCall s c .done
  else { setCall s c .claimed with shutdownDone := true }

/-- The section of `logger_shutdown`. -/
def stopLogger : State ι :=
  { setCall s c .joining with loggerRunning := false, logger := s.logger.signal }

end

inductive Event (ι : Type) where
  | test (c : ι)
  | enqueue (c : ι)
  | fallBack (c : ι)
  | write (c : ι)
  | writeFails (c : ι)
  | wrote (c : ι)
  | leave (c : ι)
  | claim (c : ι)
  | load (c : ι)
  | stop (c : ι)
  | join (c : ι)
  | wake
  | look
  | gather
  | writev
  | writevFails
  | flushed
  | giveBack

section
variable [DecidableEq ι]

/-- One step of one thread. -/
inductive Step (job : ι → Job) : State ι → Event ι → State ι → Prop where
  | test {s c level record} : job c = .log level record → s.call c = .start →
    Step job s (.test c) (setCall s c (if s.loggerRunning then .tested else .refused))
  | enqueue {s t c level record} : job c = .log level record → s.call c = .tested →
    tryEnqueueLog s c record = some t → Step job s (.enqueue c) (setCall t c .logged)
  | full {s c level record} : job c = .log level record → s.call c = .tested →
    tryEnqueueLog s c record = none → Step job s (.enqueue c) (setCall s c .refused)
  | fallBack {s c level record} : job c = .log level record → s.call c = .refused →
    Step job s (.fallBack c) (fallbackWriteLog s c level record)
  | write {s c own rest n} : s.call c = .writing own rest → 0 < n → n ≤ rest.length →
    Step job s (.write c) (robustWrite s c own rest n)
  | writeFails {s c own rest} : s.call c = .writing own rest → rest ≠ [] →
    Step job s (.writeFails c) (setCall s c .logged)
  | wrote {s c own} : s.call c = .writing own [] → Step job s (.wrote c) (setCall s c .logged)
  | leave {s c level record} : job c = .log level record → level ≠ .fatal → s.call c = .logged →
    Step job s (.leave c) (setCall s c .done)
  | claim {s c} : job c = .shutdown → s.call c = .start → Step job s (.claim c) (claimShutdown s c)
  | claimFatal {s c record} : job c = .log .fatal record → s.call c = .logged →
    Step job s (.claim c) (claimShutdown s c)
  | load {s c} : s.call c = .claimed →
    Step job s (.load c) (setCall s c (if s.loggerRunning then .stopping else .done))
  | stop {s c} : s.call c = .stopping → Step job s (.stop c) (stopLogger s c)
  | join {s c} : s.call c = .joining → s.logger = .exited →
    Step job s (.join c) (setCall s c .done)
  /-- Without a reason. -/
  | wake {s} : s.logger = .waiting → Step job s .wake { s with logger := .ready }
  | look {s} : s.logger = .ready → Step job s .look (loggerLook s)
  | gather {s batch} : s.logger = .taken batch → Step job s .gather (loggerGather s batch)
  | writev {s batch iov written total n} : s.logger = .writing batch iov written total →
    written < total → iov ≠ [] → 0 < n → n ≤ iovLen iov →
    Step job s .writev (loggerWritev s batch iov written total n)
  | writevFails {s batch iov written total} : s.logger = .writing batch iov written total →
    written < total → iov ≠ [] → Step job s .writevFails { s with logger := .returning batch }
  | flushed {s batch iov written total} : s.logger = .writing batch iov written total →
    ¬(written < total ∧ iov ≠ []) → Step job s .flushed { s with logger := .returning batch }
  | giveBack {s batch} : s.logger = .returning batch →
    Step job s .giveBack (returnBatchToPool s batch)

/-- The logger and the threads that use it, with what each call is for. -/
def system (job : ι → Job) : System (State ι) (Event ι) where
  init s := ∃ created logQueue, s = loggerInit created logQueue
  step := Step job

end

end ApiServer.Logger
