import ApiServer.Lib.Memory
import ApiServer.Lib.WriteLoop
import ApiServer.Logger

/-!
# Writing the log (`lib/logger.c`)

`robust_write` writes one text, and `write_batch_iovecs` the texts of a batch with `writev`. Here
both are whole loops over memory. The batch is an array of `struct iovec` that `advance_iovecs`
changes in place; it refines the list of parts that the logger thread has left.

The sums are of lengths of texts in memory, and do not wrap.
-/

namespace ApiServer.Logger.Raw
open Bytes Function

/-! ## One text -/

section
variable (mem : Mem) (buf : Int) (len : Nat)

/-- The loop of `robust_write`; its state is `total`. -/
def robustLoop : WriteLoop Nat UInt8 where
  more total := total < len
  offered total := mem.load (buf + total) (len - total)
  advance total n := total + n

def robustWrite (results : List WriteResult) : WriteLoop.Outcome Nat UInt8 :=
  (robustLoop mem buf len).run results 0

theorem robustLoop_lawful : (robustLoop mem buf len).Lawful (· ≤ len) where
  more_iff {total} _ := by
    rw [← List.length_pos_iff]
    simp only [robustLoop, decide_eq_true_eq, Mem.length_load]
    omega
  inv_advance {total n} htotal _ hn := by
    simp only [robustLoop, Mem.length_load] at hn ⊢
    omega
  offered_advance {total n} _ _ hn := by
    rw [robustLoop, Mem.length_load] at hn
    simp only [robustLoop, Mem.drop_load hn, Int.natCast_add, Int.add_assoc, Nat.sub_sub]

theorem robustWrite_intact (results : List WriteResult) :
    let text := mem.load buf len
    let o := robustWrite mem buf len results
    o.out <+: text ∧
      (.fails false ∉ results → (o.returned ↔ o.out = text) ∧
        (len ≤ results.countP (·.isPositive) → o.returned)) := by
  have hstart : (robustLoop mem buf len).offered 0 = mem.load buf len := by simp [robustLoop]
  have hintact := (robustLoop_lawful mem buf len).intact (Nat.zero_le len) results
  rwa [hstart, Mem.length_load] at hintact

end

/-! ## A batch -/

/-- `struct iovec`. -/
structure Iovec where
  iovBase : Int
  iovLen : Nat

/-- `advance_iovecs`: the array, and the offset that is stored back. -/
def advanceIovecs (iov : Nat → Iovec) (batchCount offset bytesWritten : Nat) :
    (Nat → Iovec) × Nat :=
  if 0 < bytesWritten ∧ offset < batchCount then
    if (iov offset).iovLen ≤ bytesWritten then
      advanceIovecs iov batchCount (offset + 1) (bytesWritten - (iov offset).iovLen)
    else
      advanceIovecs
        (update iov offset
          ⟨(iov offset).iovBase + bytesWritten, (iov offset).iovLen - bytesWritten⟩)
        batchCount offset 0
  else (iov, offset)
termination_by batchCount - offset + bytesWritten

/-- The entries from `&iov[offset]` on. -/
def fromOffset (iov : Nat → Iovec) (batchCount offset : Nat) : List Iovec :=
  (List.range' offset (batchCount - offset)).map iov

variable (mem : Mem)

/-- What the entries point to. -/
def gather (iov : List Iovec) : Bytes := iov.flatMap fun v => mem.load v.iovBase v.iovLen

/-- The variables of `write_batch_iovecs`. -/
structure BatchState where
  iov : Nat → Iovec
  iovOffset : Nat := 0
  totalWritten : Nat := 0

def batchLoop (batchCount totalToWrite : Nat) : WriteLoop BatchState UInt8 where
  more s := s.totalWritten < totalToWrite && s.iovOffset < batchCount
  offered s := gather mem (fromOffset s.iov batchCount s.iovOffset)
  advance s n :=
    let (iov, iovOffset) := advanceIovecs s.iov batchCount s.iovOffset n
    { iov, iovOffset, totalWritten := s.totalWritten + n }

/-- `write_batch_iovecs`, when the calls of `writev` have these results. -/
def writeBatchIovecs (iov : Nat → Iovec) (batchCount totalToWrite : Nat)
    (results : List WriteResult) : WriteLoop.Outcome BatchState UInt8 :=
  (batchLoop mem batchCount totalToWrite).run results { iov }

/-- The sum that `logger_thread_func` passes. -/
def totalToWrite (iov : Nat → Iovec) (batchCount : Nat) : Nat :=
  ((List.range batchCount).map fun i => (iov i).iovLen).sum

/-! ## The array and the list of parts -/

/-- Where a part of a buffer is, with the buffers at `addr`. -/
def place (addr : Nat → Int) (v : Logger.Iovec) : Iovec := ⟨addr v.buffer + v.offset, v.len⟩

theorem fromOffset_of_lt {iov : Nat → Iovec} {batchCount offset : Nat} (h : offset < batchCount) :
    fromOffset iov batchCount offset = iov offset :: fromOffset iov batchCount (offset + 1) := by
  rw [fromOffset, fromOffset, ← List.map_cons, ← List.range'_succ]
  congr 2
  omega

theorem fromOffset_of_le {iov : Nat → Iovec} {batchCount offset : Nat} (h : batchCount ≤ offset) :
    fromOffset iov batchCount offset = [] := by
  rw [fromOffset, Nat.sub_eq_zero_of_le h]
  rfl

theorem fromOffset_update (iov : Nat → Iovec) (batchCount offset : Nat) (v : Iovec) :
    fromOffset (update iov offset v) batchCount (offset + 1) =
      fromOffset iov batchCount (offset + 1) := by
  refine List.map_congr_left fun i hi => update_of_ne ?_ ..
  have := (List.mem_range'_1.mp hi).1
  omega

theorem advanceIovecs_zero (l : List Logger.Iovec) : Logger.advanceIovecs l 0 = l := by
  cases l with
  | nil => rfl
  | cons v l => rw [Logger.advanceIovecs, if_pos rfl]

/-- The loop over the array is the recursion over the list. -/
theorem fromOffset_advanceIovecs {addr : Nat → Int} {iov : Nat → Iovec} {batchCount offset n : Nat}
    {l : List Logger.Iovec} (h : fromOffset iov batchCount offset = l.map (place addr)) :
    fromOffset (advanceIovecs iov batchCount offset n).1 batchCount
      (advanceIovecs iov batchCount offset n).2 = (Logger.advanceIovecs l n).map (place addr) := by
  fun_induction advanceIovecs iov batchCount offset n generalizing l with
  | case1 iov offset n hn hlen ih =>
    -- The entry is written to its end.
    rw [fromOffset_of_lt hn.2] at h
    obtain ⟨v, l, rfl, hv, hl⟩ := List.map_eq_cons_iff.mp h.symm
    rw [Logger.advanceIovecs, if_neg (by omega), if_pos (by rw [← hv] at hlen; exact hlen)]
    rw [ih hl.symm, ← hv]
    rfl
  | case2 iov offset n hn hlen ih =>
    -- The entry is cut at its front, and the loop ends with its next test.
    rw [fromOffset_of_lt hn.2] at h
    obtain ⟨v, l, rfl, hv, hl⟩ := List.map_eq_cons_iff.mp h.symm
    rw [Logger.advanceIovecs, if_neg (by omega), if_neg (by rw [← hv] at hlen; exact hlen)]
    rw [@ih ({ v with offset := v.offset + n, len := v.len - n } :: l), advanceIovecs_zero]
    rw [fromOffset_of_lt hn.2, update_self, fromOffset_update, ← hl, ← hv, List.map_cons]
    simp only [place, Int.natCast_add, Int.add_assoc]
  | case3 iov offset n hn =>
    rcases Nat.eq_zero_or_pos n with rfl | hpos
    · rw [advanceIovecs_zero, h]
    · rw [fromOffset_of_le (by omega)] at h ⊢
      rw [List.map_eq_nil_iff.mp h.symm]
      rfl

/-- Every array is laid out in some way. -/
theorem exists_place (iov : Nat → Iovec) (batchCount offset : Nat) :
    ∃ (addr : Nat → Int) (l : List Logger.Iovec),
      fromOffset iov batchCount offset = l.map (place addr) := by
  refine ⟨fun i => (iov i).iovBase,
    (List.range' offset (batchCount - offset)).map fun i => ⟨i, 0, (iov i).iovLen⟩, ?_⟩
  rw [fromOffset, List.map_map]
  exact List.map_congr_left fun i _ => by simp [place]

section
variable {mem} {addr : Nat → Int}

theorem gather_cons (v : Iovec) (iov : List Iovec) :
    gather mem (v :: iov) = mem.load v.iovBase v.iovLen ++ gather mem iov := List.flatMap_cons

theorem gather_advance (l : List Logger.Iovec) (n : Nat) :
    gather mem ((Logger.advanceIovecs l n).map (place addr)) =
      (gather mem (l.map (place addr))).drop n := by
  induction l generalizing n with
  | nil => exact List.drop_nil.symm
  | cons v l ih =>
    rw [Logger.advanceIovecs, List.map_cons, gather_cons]
    split
    · next hn => rw [hn, List.drop_zero, ← gather_cons, List.map_cons]
    · split
      · next hlen =>
        have hall : (mem.load (place addr v).iovBase (place addr v).iovLen).length ≤ n := by
          rwa [Mem.length_load]
        rw [ih, List.drop_append, List.drop_of_length_le hall, Mem.length_load, List.nil_append]
        rfl
      · next hlen =>
        have hn : n ≤ (place addr v).iovLen := Nat.le_of_not_le hlen
        rw [List.map_cons, gather_cons, List.drop_append_of_le_length (by rwa [Mem.length_load]),
          Mem.drop_load hn]
        simp only [place, Int.natCast_add, Int.add_assoc]

/-- What `writev` takes is what the parts it takes point to. -/
theorem gather_first (l : List Logger.Iovec) (n : Nat) :
    gather mem ((firstIovecs l n).map (place addr)) = (gather mem (l.map (place addr))).take n := by
  induction l generalizing n with
  | nil => exact List.take_nil.symm
  | cons v l ih =>
    rw [firstIovecs, List.map_cons, gather_cons]
    split
    · next hn => rw [hn, List.take_zero]; rfl
    · split
      · next hlen =>
        have hall : (mem.load (place addr v).iovBase (place addr v).iovLen).length ≤ n := by
          rwa [Mem.length_load]
        rw [List.map_cons, gather_cons, ih, List.take_append, List.take_of_length_le hall,
          Mem.length_load]
        rfl
      · next hlen =>
        have hn : n ≤ v.len := Nat.le_of_not_le hlen
        rw [List.take_append_of_le_length (by rwa [Mem.length_load]), place, Mem.take_load hn,
          List.map_singleton, gather_cons]
        exact List.append_nil _

end

theorem offered_advance (batchCount totalToWrite : Nat) (s : BatchState) (n : Nat) :
    (batchLoop mem batchCount totalToWrite).offered
      ((batchLoop mem batchCount totalToWrite).advance s n) =
        ((batchLoop mem batchCount totalToWrite).offered s).drop n := by
  obtain ⟨addr, l, hl⟩ := exists_place s.iov batchCount s.iovOffset
  have hadvance := fromOffset_advanceIovecs (n := n) hl
  exact (congrArg (gather mem) hadvance).trans ((gather_advance l n).trans (by rw [← hl]; rfl))

/-- The variables are a position in the batch. -/
theorem batchLoop_lawful (batchCount totalToWrite : Nat) :
    (batchLoop mem batchCount totalToWrite).Lawful fun s =>
      s.totalWritten + ((batchLoop mem batchCount totalToWrite).offered s).length =
        totalToWrite where
  more_iff {s} hs := by
    rw [← List.length_pos_iff]
    simp only [batchLoop, Bool.and_eq_true, decide_eq_true_eq] at hs ⊢
    refine ⟨fun h => by omega, fun h => ⟨by omega, Nat.lt_of_not_le fun hle => ?_⟩⟩
    rw [fromOffset_of_le hle] at h
    exact Nat.lt_irrefl 0 h
  inv_advance {s n} hs _ hn := by
    rw [offered_advance, List.length_drop]
    show s.totalWritten + n + _ = _
    omega
  offered_advance _ _ _ := offered_advance ..

theorem offered_start (iov : Nat → Iovec) (batchCount totalToWrite : Nat) :
    (batchLoop mem batchCount totalToWrite).offered { iov } =
      (List.range batchCount).flatMap fun i => mem.load (iov i).iovBase (iov i).iovLen := by
  rw [List.range_eq_range']
  exact List.flatMap_map ..

theorem length_offered_start (iov : Nat → Iovec) (batchCount : Nat) :
    ((batchLoop mem batchCount (totalToWrite iov batchCount)).offered { iov }).length =
      totalToWrite iov batchCount := by
  rw [offered_start, List.length_flatMap, totalToWrite]
  simp only [Mem.length_load]

/-- What went to the descriptor is the batch up to some byte. Without an error other than an
interruption the function returns when that is all of it, and as many calls that take something as
there are bytes bring it there. -/
theorem writeBatchIovecs_intact (iov : Nat → Iovec) (batchCount : Nat)
    (results : List WriteResult) :
    let entries := (List.range batchCount).flatMap fun i => mem.load (iov i).iovBase (iov i).iovLen
    let o := writeBatchIovecs mem iov batchCount (totalToWrite iov batchCount) results
    o.out <+: entries ∧
      (.fails false ∉ results → (o.returned ↔ o.out = entries) ∧
        (entries.length ≤ results.countP (·.isPositive) → o.returned)) := by
  have hinv := (Nat.zero_add _).trans (length_offered_start mem iov batchCount)
  have hintact := (batchLoop_lawful mem batchCount (totalToWrite iov batchCount)).intact
    (s := { iov }) hinv results
  rwa [offered_start] at hintact

/-- Two entries, taken byte by byte, with an interruption inside the first one. -/
theorem writeBatchIovecs_interrupted :
    let mem := Mem.storeAll { byte := fun _ => 0 } 0 (bytes "abcd")
    let iov : Nat → Iovec := fun i => ⟨2 * i, 2⟩
    let results := [.takes 1, .fails true, .takes 1, .takes 1, .takes 1]
    (writeBatchIovecs mem iov 2 (totalToWrite iov 2) results).returned ∧
      (writeBatchIovecs mem iov 2 (totalToWrite iov 2) results).out = bytes "abcd" := by
  intro mem iov results
  obtain ⟨hwhole, hreturns⟩ := (writeBatchIovecs_intact mem iov 2 results).2 (by decide)
  have hreturned := hreturns (by decide)
  exact ⟨hreturned, (hwhole.mp hreturned).trans (by decide)⟩

/-! ## The logger thread -/

/-- The array that `logger_thread_func` fills. -/
def batchIov (addr : Nat → Int) (logBuffers : Nat → LogEntry ι) (batch : List Nat) (i : Nat) :
    Iovec :=
  ⟨addr (batch.getD i 0), (logBuffers (batch.getD i 0)).len⟩

/-- A part of a buffer is in memory where it is placed. -/
def InMemory (addr : Nat → Int) (logBuffers : Nat → LogEntry ι) (v : Logger.Iovec) : Prop :=
  mem.load (place addr v).iovBase v.len = (v.read logBuffers).2

/-- The variables stand for the list that the logger thread has left, and its buffers are in
memory. -/
structure Represents (addr : Nat → Int) (logBuffers : Nat → LogEntry ι) (batchCount : Nat)
    (l : List Logger.Iovec) (written : Nat) (b : BatchState) : Prop where
  iov_eq : fromOffset b.iov batchCount b.iovOffset = l.map (place addr)
  written_eq : b.totalWritten = written
  inMemory : ∀ v ∈ l, InMemory mem addr logBuffers v

section
variable {mem} {addr : Nat → Int} {logBuffers : Nat → LogEntry ι}
  {batchCount written total n : Nat} {l : List Logger.Iovec} {b : BatchState}

theorem length_gather (l : List Logger.Iovec) :
    (gather mem (l.map (place addr))).length = iovLen l := by
  induction l with
  | nil => rfl
  | cons v l ih =>
    rw [List.map_cons, gather_cons, List.length_append, Mem.length_load, ih, iovLen_cons]
    rfl

theorem InMemory.part {v : Logger.Iovec} (h : InMemory mem addr logBuffers v) {k j : Nat}
    (hk : k + j ≤ v.len) :
    InMemory mem addr logBuffers { v with offset := v.offset + k, len := j } := by
  have hload := congrArg (fun s => (s.drop k).take j) h
  dsimp only [place, Logger.Iovec.read] at hload
  rw [Mem.drop_load (by omega), Mem.take_load (by omega), List.drop_take, List.take_take,
    Nat.min_eq_left (by omega), List.drop_drop] at hload
  rw [InMemory, place, Int.natCast_add, ← Int.add_assoc]
  exact hload

theorem inMemory_advance (h : ∀ v ∈ l, InMemory mem addr logBuffers v) :
    ∀ v ∈ Logger.advanceIovecs l n, InMemory mem addr logBuffers v := by
  induction l generalizing n with
  | nil => nofun
  | cons w l ih =>
    rw [Logger.advanceIovecs]
    split
    · exact h
    · split
      · exact ih fun v hv => h v (.tail _ hv)
      · next hlen =>
        intro v hv
        obtain rfl | hv := List.mem_cons.mp hv
        · exact (h w (.head _)).part (by omega)
        · exact h v (.tail _ hv)

theorem inMemory_first (h : ∀ v ∈ l, InMemory mem addr logBuffers v) :
    ∀ v ∈ firstIovecs l n, InMemory mem addr logBuffers v := by
  induction l generalizing n with
  | nil => nofun
  | cons w l ih =>
    rw [firstIovecs]
    split
    · nofun
    · split
      · intro v hv
        obtain rfl | hv := List.mem_cons.mp hv
        · exact h v (.head _)
        · exact ih (fun v hv => h v (.tail _ hv)) v hv
      · next hlen =>
        intro v hv
        obtain rfl := List.mem_singleton.mp hv
        exact (h w (.head _)).part (k := 0) (by omega)

/-- What the logger thread has written, as bytes. -/
theorem flatMap_read_first (h : ∀ v ∈ l, InMemory mem addr logBuffers v) :
    ((firstIovecs l n).map (Logger.Iovec.read logBuffers)).flatMap (·.2) =
      (gather mem (l.map (place addr))).take n := by
  rw [← gather_first, gather, List.flatMap_map, List.flatMap_map]
  exact List.flatMap_congr fun v hv => (inMemory_first h v hv).symm

theorem Represents.advance (R : Represents mem addr logBuffers batchCount l written b) :
    Represents mem addr logBuffers batchCount (Logger.advanceIovecs l n) (written + n)
      ((batchLoop mem batchCount total).advance b n) where
  iov_eq := fromOffset_advanceIovecs R.iov_eq
  written_eq := congrArg (· + n) R.written_eq
  inMemory := inMemory_advance R.inMemory

theorem Represents.more_iff (R : Represents mem addr logBuffers batchCount l written b) :
    (batchLoop mem batchCount total).more b ↔ written < total ∧ l ≠ [] := by
  simp only [batchLoop, Bool.and_eq_true, decide_eq_true_eq, R.written_eq]
  refine and_congr_right fun _ => ⟨fun hlt hl => ?_, fun hl => Nat.lt_of_not_le fun hle => hl ?_⟩
  · have hcons := R.iov_eq
    rw [hl, fromOffset_of_lt hlt] at hcons
    exact absurd hcons (List.cons_ne_nil _ _)
  · have hnil := R.iov_eq
    rw [fromOffset_of_le hle] at hnil
    exact List.map_eq_nil_iff.mp hnil.symm

/-- The array as it is filled stands for the list as it is gathered. -/
theorem represents_gather {batch : List Nat}
    (h : ∀ entry ∈ batch,
      mem.load (addr entry) (logBuffers entry).len = (logBuffers entry).piece.2) :
    Represents mem addr logBuffers batch.length
      (batch.map fun entry => ⟨entry, 0, (logBuffers entry).len⟩) 0
      { iov := batchIov addr logBuffers batch } where
  iov_eq := by
    rw [fromOffset, Nat.sub_zero, ← List.range_eq_range', List.map_map]
    apply List.ext_getElem
    · simp
    · intro i hi hi'
      rw [List.length_map] at hi'
      simp [batchIov, place, hi']
  written_eq := rfl
  inMemory := by
    intro v hv
    obtain ⟨entry, hentry, rfl⟩ := List.mem_map.mp hv
    simpa [InMemory, place, Logger.Iovec.read, LogEntry.piece] using h entry hentry

variable [DecidableEq ι] (job : ι → Job) {s : State ι} {batch : List Nat}

/-- A call of `writev` that takes something is a step of the logger thread. -/
theorem writev_step (hs : s.logger = .writing batch l written total)
    (R : Represents mem addr s.logBuffers batchCount l written b)
    (hmore : (batchLoop mem batchCount total).more b) (hn : 0 < n)
    (hle : n ≤ ((batchLoop mem batchCount total).offered b).length) :
    ∃ t, Step job s .writev t ∧
      t.logger = .writing batch (Logger.advanceIovecs l n) (written + n) total ∧
      Represents mem addr t.logBuffers batchCount (Logger.advanceIovecs l n) (written + n)
        ((batchLoop mem batchCount total).advance b n) ∧
      t.stderr.flatMap (·.2) =
        s.stderr.flatMap (·.2) ++ ((batchLoop mem batchCount total).offered b).take n := by
  have hoffer : (batchLoop mem batchCount total).offered b = gather mem (l.map (place addr)) :=
    congrArg (gather mem) R.iov_eq
  rw [hoffer, length_gather] at hle
  obtain ⟨hlt, hl⟩ := R.more_iff.mp hmore
  refine ⟨_, .writev hs hlt hl hn hle, rfl, R.advance, ?_⟩
  rw [hoffer, ← flatMap_read_first R.inMemory]
  exact List.flatMap_append

/-- The calls of a run are steps of the logger thread. -/
theorem run_simulated (hs : s.logger = .writing batch l written total)
    (R : Represents mem addr s.logBuffers batchCount l written b) (results : List WriteResult) :
    ∃ t, ((system job).since s).Reachable (fun _ _ => True) t ∧
      t.stderr.flatMap (·.2) =
        s.stderr.flatMap (·.2) ++ ((batchLoop mem batchCount total).run results b).out ∧
      (((batchLoop mem batchCount total).run results b).returned →
        t.logger = .returning batch) := by
  -- The state and the list change with every call that takes something.
  revert s l written
  fun_induction (batchLoop mem batchCount total).run results b with
  | case1 b hmore =>
    intro written l s hs R
    exact ⟨s, .init rfl, (List.append_nil _).symm, fun h => by cases h⟩
  | case2 b hmore r results n hn =>
    rename_i o ih
    intro written l s hs R
    obtain ⟨t, hstep, ht, R', hout⟩ := writev_step job hs R hmore (by omega) r.ret_le
    obtain ⟨u, hu, hout', hret⟩ := ih ht R'
    refine ⟨u, .trans (.step (.init rfl) trivial hstep) hu, ?_, hret⟩
    rw [hout', hout, List.append_assoc]
  | case3 b hmore r results n hn =>
    intro written l s hs R
    obtain ⟨hlt, hl⟩ := R.more_iff.mp hmore
    exact ⟨_, .step (.init rfl) trivial (.writevFails hs hlt hl), (List.append_nil _).symm,
      fun _ => rfl⟩
  | case4 b hmore r results n hn hr =>
    rename_i ih
    exact ih
  | case5 results b hmore =>
    intro written l s hs R
    exact ⟨_, .step (.init rfl) trivial (.flushed hs (mt R.more_iff.mpr hmore)),
      (List.append_nil _).symm, fun _ => rfl⟩

end

end ApiServer.Logger.Raw
