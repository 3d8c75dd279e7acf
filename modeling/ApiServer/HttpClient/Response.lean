import ApiServer.Context
import ApiServer.Lib.Memory
import ApiServer.Lib.SizeT

/-!
# The response of another server (`lib/http_client.c`)

libcurl passes the body of a response to `write_memory_cb` in chunks, which are collected in one
block with a zero behind them. The block grows when a chunk does not fit. A chunk that would make
the body too large, and one for which there is no memory, are refused; libcurl then gives up the
transfer, but nothing here depends on that.
-/

namespace ApiServer.HttpClient
open Bytes

/-- `HTTP_CLIENT_CHUNK_SIZE`. -/
def httpClientChunkSize : UInt64 := 4096

/-- `struct memory_struct`, with the block that `memory` points to. -/
structure MemoryStruct where
  memory : Option Mem := none
  size : UInt64 := 0
  capacity : UInt64 := 0

/-- A call of `write_memory_cb`, and what becomes of its `realloc`: no block, or one whose bytes are
arbitrary behind those that are copied. -/
structure Call where
  contents : Mem
  size : UInt64
  nmemb : UInt64
  realloc : Option (Int → UInt8)

/-- What `write_memory_cb` returns and leaves. -/
structure Answer where
  ret : UInt64
  chunk : MemoryStruct
  tls : ThreadLocals

/-- The block that `realloc` returns. -/
def MemoryStruct.realloc (mem : MemoryStruct) (fresh : Int → UInt8) : Mem :=
  match mem.memory with
  | none => { byte := fresh }
  | some block =>
    { block with byte := fun k => if k < mem.capacity.toNat then block.byte k else fresh k }

/-- `new_cap`. -/
def newCapacity (capacity reqCap : UInt64) : UInt64 :=
  let (newCap, wrapped) := ckdMul capacity 2
  let newCap := if wrapped then reqCap else newCap
  if newCap < reqCap then reqCap else newCap

/-- The copy at the end of `write_memory_cb`. -/
def appendChunk (mem : MemoryStruct) (contents : Mem) (realsize newSize : UInt64) : MemoryStruct :=
  { mem with
    -- There is a block: without one the capacity is 0, and no chunk fits.
    memory := mem.memory.map fun block =>
      (block.storeAll mem.size.toNat (contents.load 0 realsize.toNat)).store newSize.toNat 0
    size := newSize }

/-- `write_memory_cb` from the test of the capacity on. -/
def storeChunk (tls : ThreadLocals) (mem : MemoryStruct) (c : Call)
    (realsize newSize reqCap : UInt64) : Answer :=
  if mem.capacity < reqCap then
    match c.realloc with
    | none =>
      ⟨0, {}, setThreadError tls .error (bytes "Out of memory in HTTP client write callback")⟩
    | some fresh =>
      let grown := { mem with
        memory := some (mem.realloc fresh), capacity := newCapacity mem.capacity reqCap }
      ⟨realsize, appendChunk grown c.contents realsize newSize, tls⟩
  else ⟨realsize, appendChunk mem c.contents realsize newSize, tls⟩

def writeMemoryCb (maxPayload : UInt64) (tls : ThreadLocals) (mem : MemoryStruct) (c : Call) :
    Answer :=
  if c.nmemb ≠ 0 ∧ sizeMax / c.nmemb < c.size then ⟨0, mem, tls⟩
  else
    let realsize := c.size * c.nmemb
    let (newSize, wrapped) := ckdAdd mem.size realsize
    if wrapped then ⟨0, mem, tls⟩
    else if maxPayload < newSize then ⟨0, mem, tls⟩
    else
      let (reqCap, wrapped) := ckdAdd newSize 1
      if wrapped then ⟨0, mem, tls⟩
      else storeChunk tls mem c realsize newSize reqCap

/-- `setup_curl_request`, apart from the options of the transfer: whether it returns a handle, and
the chunk. It is told whether there is a handle, what `malloc` returns and which headers could be
appended. -/
def setupCurlRequest (curl : Bool) (malloc : Option (Int → UInt8)) (appended : List Bool)
    (chunk : MemoryStruct) (tls : ThreadLocals) : Bool × MemoryStruct × ThreadLocals :=
  if !curl then (false, chunk, tls)
  else
    match malloc with
    | none =>
      (false, { chunk with memory := none }, setThreadError tls .error
        (bytes "Out of memory allocating initial chunk memory in do_http_request"))
    | some fresh =>
      let chunk : MemoryStruct :=
        { memory := some (Mem.store { byte := fresh } 0 0)
          size := 0
          capacity := httpClientChunkSize }
      if appended.all id then (true, chunk, tls)
      else (false, chunk, setThreadError tls .error (bytes "Out of memory allocating curl headers"))

/-! ## Sizes in the natural numbers -/

/-- `size * nmemb`. -/
def Call.length (c : Call) : Nat := c.size.toNat * c.nmemb.toNat

def Call.chunk (c : Call) : Bytes := c.contents.load 0 c.length

/-- A size would wrap, or be more than is allowed. -/
def TooLarge (maxPayload : UInt64) (mem : MemoryStruct) (c : Call) : Prop :=
  2 ^ 64 ≤ mem.size.toNat + c.length + 1 ∨ maxPayload.toNat < mem.size.toNat + c.length

/-- `realloc` is called and fails. -/
def LacksMemory (maxPayload : UInt64) (mem : MemoryStruct) (c : Call) : Prop :=
  ¬TooLarge maxPayload mem c ∧ mem.capacity.toNat < mem.size.toNat + c.length + 1 ∧ c.realloc.isNone

instance : Decidable (TooLarge maxPayload mem c) := inferInstanceAs (Decidable (_ ∨ _))

instance : Decidable (LacksMemory maxPayload mem c) := inferInstanceAs (Decidable (_ ∧ _))

/-- The sizes that `write_memory_cb` computes are those of the natural numbers. -/
structure Exact (mem : MemoryStruct) (c : Call) : Prop where
  realsize : (c.size * c.nmemb).toNat = c.length
  newSize : (mem.size + c.size * c.nmemb).toNat = mem.size.toNat + c.length
  reqCap : (mem.size + c.size * c.nmemb + 1).toNat = mem.size.toNat + c.length + 1
  newCap : (newCapacity mem.capacity (mem.size + c.size * c.nmemb + 1)).toNat =
    if mem.capacity.toNat * 2 < 2 ^ 64 then
      max (mem.capacity.toNat * 2) (mem.size.toNat + c.length + 1)
    else mem.size.toNat + c.length + 1

variable {maxPayload : UInt64} {tls : ThreadLocals} {mem : MemoryStruct} {c : Call}

theorem toNat_newCapacity (capacity reqCap : UInt64) :
    (newCapacity capacity reqCap).toNat =
      if capacity.toNat * 2 < 2 ^ 64 then max (capacity.toNat * 2) reqCap.toNat
      else reqCap.toNat := by
  show (if (if (ckdMul capacity 2).2 then reqCap else capacity * 2) < reqCap then reqCap
    else if (ckdMul capacity 2).2 then reqCap else capacity * 2).toNat = _
  by_cases hwrap : capacity.toNat * 2 < 2 ^ 64
  · have hmul : (capacity * 2).toNat = capacity.toNat * 2 := toNat_mul hwrap
    rw [if_neg (mt ckdMul_wrapped.mp (Nat.not_le.mpr hwrap)), if_pos hwrap]
    split
    · next h => rw [UInt64.lt_iff_toNat_lt] at h; omega
    · next h => rw [UInt64.lt_iff_toNat_lt] at h; omega
  · rw [if_pos (ckdMul_wrapped.mpr (Nat.le_of_not_lt hwrap)), if_neg hwrap, ite_self]

theorem le_newCapacity (capacity reqCap : UInt64) :
    reqCap.toNat ≤ (newCapacity capacity reqCap).toNat ∧
      (capacity.toNat < reqCap.toNat → capacity.toNat ≤ (newCapacity capacity reqCap).toNat) := by
  rw [toNat_newCapacity]
  split <;> omega

section
variable (maxPayload tls mem c)

/-- Nothing wraps when the chunk and the zero can be counted. -/
theorem exact_of_lt (h : mem.size.toNat + c.length + 1 < 2 ^ 64) : Exact mem c := by
  have hmul : (c.size * c.nmemb).toNat = c.length := toNat_mul (by unfold Call.length at h; omega)
  have hadd : (mem.size + c.size * c.nmemb).toNat = mem.size.toNat + c.length := by
    rw [toNat_add (by omega), hmul]
  have hreq : (mem.size + c.size * c.nmemb + 1).toNat = mem.size.toNat + c.length + 1 := by
    rw [toNat_add (by rw [hadd]; exact h), hadd]
    rfl
  exact ⟨hmul, hadd, hreq, by rw [toNat_newCapacity, hreq]⟩

/-- The four tests in front of the block. -/
theorem tooLarge_iff :
    TooLarge maxPayload mem c ↔
      (c.nmemb ≠ 0 ∧ sizeMax / c.nmemb < c.size) ∨ (ckdAdd mem.size (c.size * c.nmemb)).2 ∨
      maxPayload < mem.size + c.size * c.nmemb ∨ (ckdAdd (mem.size + c.size * c.nmemb) 1).2 := by
  rw [sizeMax_div_lt_iff, ckdAdd_wrapped, ckdAdd_wrapped, UInt64.lt_iff_toNat_lt]
  show 2 ^ 64 ≤ mem.size.toNat + c.length + 1 ∨ _ ↔ 2 ^ 64 ≤ c.length ∨ _
  have hone : (1 : UInt64).toNat = 1 := rfl
  by_cases hmul : 2 ^ 64 ≤ c.length
  · exact iff_of_true (.inl (by omega)) (.inl hmul)
  · have hlen : (c.size * c.nmemb).toNat = c.length := toNat_mul (Nat.lt_of_not_le hmul)
    by_cases hadd : mem.size.toNat + c.length < 2 ^ 64
    · have hsum : (mem.size + c.size * c.nmemb).toNat = mem.size.toNat + c.length := by
        rw [toNat_add (hlen.symm ▸ hadd), hlen]
      rw [hlen, hsum, hone]
      omega
    · rw [hlen]
      exact iff_of_true (.inl (by omega)) (.inr (.inl (by omega)))

/-- `write_memory_cb` decides as if its sizes were natural numbers. -/
theorem writeMemoryCb_eq :
    writeMemoryCb maxPayload tls mem c =
      if TooLarge maxPayload mem c then ⟨0, mem, tls⟩
      else storeChunk tls mem c (c.size * c.nmemb) (mem.size + c.size * c.nmemb)
        (mem.size + c.size * c.nmemb + 1) := by
  show (if c.nmemb ≠ 0 ∧ sizeMax / c.nmemb < c.size then _
    else if (ckdAdd mem.size (c.size * c.nmemb)).2 then _
    else if maxPayload < mem.size + c.size * c.nmemb then _
    else if (ckdAdd (mem.size + c.size * c.nmemb) 1).2 then _ else _) = _
  by_cases h : TooLarge maxPayload mem c
  · rw [if_pos h]
    rcases (tooLarge_iff ..).mp h with h | h | h | h
    · rw [if_pos h]
    · rw [if_pos h, ite_self]
    · rw [if_pos h, ite_self, ite_self]
    · rw [if_pos h, ite_self, ite_self, ite_self]
  · rw [if_neg h]
    obtain ⟨h1, h2, h3, h4⟩ : _ ∧ _ ∧ _ ∧ _ := by simpa only [tooLarge_iff, not_or] using h
    rw [if_neg h1, if_neg h2, if_neg h3, if_neg h4]

end

/-! ## What the block holds -/

/-- The block holds `data` with a zero behind it, and nothing was written beside it. -/
structure Buffered (maxPayload : UInt64) (data : Bytes) (mem : MemoryStruct) : Prop where
  holds : ∃ block, mem.memory = some block ∧ block.load 0 (data.length + 1) = data ++ [0] ∧
    ∀ k ∈ block.touched, 0 ≤ k ∧ k < mem.capacity.toNat
  size_eq : mem.size.toNat = data.length
  size_lt : mem.size < mem.capacity
  size_le : mem.size ≤ maxPayload

/-- There is one text in the block. -/
theorem Buffered.unique {maxPayload : UInt64} {data data' : Bytes} {mem : MemoryStruct}
    (H : Buffered maxPayload data mem) (H' : Buffered maxPayload data' mem) : data = data' := by
  obtain ⟨block, hblock, hload, -⟩ := H.holds
  obtain ⟨block', hblock', hload', -⟩ := H'.holds
  cases hblock.symm.trans hblock'
  rw [← H.size_eq] at hload
  rw [← H'.size_eq] at hload'
  exact List.append_cancel_right (hload.symm.trans hload')

/-- What holds between the calls. -/
def Holds (maxPayload : UInt64) (data : Bytes) (mem : MemoryStruct) : Prop :=
  Buffered maxPayload data mem ∨ data = [] ∧ mem = {}

variable {data : Bytes}

/-- The copy writes the chunk and the zero, in one piece. -/
theorem wrote_appendChunk {block : Mem} {realsize newSize : UInt64}
    (hblock : mem.memory = some block) (hnew : newSize.toNat = mem.size.toNat + realsize.toNat)
    (contents : Mem) :
    ∃ block', (appendChunk mem contents realsize newSize).memory = some block' ∧
      block.Wrote mem.size.toNat (contents.load 0 realsize.toNat ++ [0]) block' := by
  refine ⟨_, by rw [appendChunk, hblock]; rfl, Mem.wrote_storeAll.then Mem.wrote_store ?_⟩
  rw [Mem.length_load, hnew]
  rfl

theorem buffered_append {block : Mem} {realsize newSize : UInt64} (hblock : mem.memory = some block)
    (hdata : block.load 0 data.length = data) (hsize : mem.size.toNat = data.length)
    (htouched : ∀ k ∈ block.touched, 0 ≤ k ∧ k < mem.capacity.toNat)
    (hnew : newSize.toNat = mem.size.toNat + realsize.toNat) (hlt : newSize < mem.capacity)
    (hle : newSize ≤ maxPayload) (contents : Mem) :
    Buffered maxPayload (data ++ contents.load 0 realsize.toNat)
      (appendChunk mem contents realsize newSize) := by
  obtain ⟨block', hblock', hwrote⟩ := wrote_appendChunk hblock hnew contents
  refine ⟨⟨block', hblock', ?_, fun k hk => ?_⟩, ?_, hlt, hle⟩
  · rw [hsize, ← Int.zero_add (data.length : Int)] at hwrote
    have hload := hwrote.load_behind hdata
    rwa [← List.append_assoc, List.length_append, List.length_singleton] at hload
  · rcases (hwrote.touched k).mp hk with hk | hk
    · exact htouched k hk
    · have hcap := UInt64.lt_iff_toNat_lt.mp hlt
      rw [List.length_append, Mem.length_load, List.length_singleton] at hk
      show 0 ≤ k ∧ k < mem.capacity.toNat
      omega
  · rw [List.length_append, Mem.length_load, ← hsize]
    exact hnew

theorem Buffered.block {maxPayload : UInt64} {data : Bytes} {mem : MemoryStruct}
    (H : Buffered maxPayload data mem) :
    ∃ block, mem.memory = some block ∧ block.load 0 data.length = data ∧
      ∀ k ∈ block.touched, 0 ≤ k ∧ k < mem.capacity.toNat := by
  obtain ⟨block, hblock, hload, htouched⟩ := H.holds
  exact ⟨block, hblock, Mem.load_of_prefix hload (List.prefix_append ..), htouched⟩

/-- The block has kept its bytes. -/
theorem load_realloc (H : Holds maxPayload data mem) (fresh : Int → UInt8) :
    (mem.realloc fresh).load 0 data.length = data ∧
      ∀ k ∈ (mem.realloc fresh).touched, 0 ≤ k ∧ k < mem.capacity.toNat := by
  rcases H with H | ⟨rfl, rfl⟩
  · obtain ⟨block, hblock, hdata, htouched⟩ := H.block
    rw [MemoryStruct.realloc, hblock]
    refine ⟨(Mem.load_congr fun k _ hk => if_pos ?_).trans hdata, htouched⟩
    -- The text is in the part that is copied.
    have hcap := UInt64.lt_iff_toNat_lt.mp H.size_lt
    rw [H.size_eq] at hcap
    omega
  · exact ⟨rfl, nofun⟩

theorem Holds.size_eq (H : Holds maxPayload data mem) : mem.size.toNat = data.length := by
  rcases H with H | ⟨rfl, rfl⟩
  · exact H.size_eq
  · rfl

section
variable (H : Holds maxPayload data mem) (E : Exact mem c)
  (hle : mem.size + c.size * c.nmemb ≤ maxPayload)
include H E hle

/-- The chunk goes to a larger block. -/
theorem buffered_grown (hgrow : mem.capacity < mem.size + c.size * c.nmemb + 1)
    (fresh : Int → UInt8) :
    Buffered maxPayload (data ++ c.chunk)
      (appendChunk
        { mem with
          memory := some (mem.realloc fresh)
          capacity := newCapacity mem.capacity (mem.size + c.size * c.nmemb + 1) }
        c.contents (c.size * c.nmemb) (mem.size + c.size * c.nmemb)) := by
  obtain ⟨hdata, htouched⟩ := load_realloc H fresh
  obtain ⟨hreq, hcap⟩ := le_newCapacity mem.capacity (mem.size + c.size * c.nmemb + 1)
  have hcap := hcap (UInt64.lt_iff_toNat_lt.mp hgrow)
  rw [Call.chunk, ← E.realsize]
  apply buffered_append rfl hdata
  · exact H.size_eq
  · intro k hk
    have hk := htouched k hk
    exact ⟨hk.1, Int.lt_of_lt_of_le hk.2 (Int.ofNat_le.mpr hcap)⟩
  · rw [E.newSize, E.realsize]
  · rw [E.reqCap] at hreq
    rw [UInt64.lt_iff_toNat_lt, E.newSize]
    exact hreq
  · exact hle

/-- The chunk goes to the block that is there: an empty state has no room. -/
theorem buffered_room (hroom : ¬mem.capacity < mem.size + c.size * c.nmemb + 1) :
    Buffered maxPayload (data ++ c.chunk)
      (appendChunk mem c.contents (c.size * c.nmemb) (mem.size + c.size * c.nmemb)) := by
  rw [UInt64.lt_iff_toNat_lt, E.reqCap] at hroom
  rcases H with H | ⟨rfl, rfl⟩
  · obtain ⟨block, hblock, hdata, htouched⟩ := H.block
    rw [Call.chunk, ← E.realsize]
    apply buffered_append hblock hdata H.size_eq htouched
    · rw [E.newSize, E.realsize]
    · rw [UInt64.lt_iff_toNat_lt, E.newSize]
      omega
    · exact hle
  · exact absurd (Nat.succ_pos _) hroom

end

theorem Exact.of_not_tooLarge (h : ¬TooLarge maxPayload mem c) : Exact mem c :=
  exact_of_lt _ _ (Nat.lt_of_not_le (not_or.mp h).1)

variable (tls) in
/-- A chunk that fits, in the block or in a larger one, is stored. -/
theorem writeMemoryCb_accepted (H : Holds maxPayload data mem) (hfits : ¬TooLarge maxPayload mem c)
    (hmemory : ¬LacksMemory maxPayload mem c) :
    (writeMemoryCb maxPayload tls mem c).ret.toNat = c.length ∧
      (writeMemoryCb maxPayload tls mem c).tls = tls ∧
      Buffered maxPayload (data ++ c.chunk) (writeMemoryCb maxPayload tls mem c).chunk := by
  have E := Exact.of_not_tooLarge hfits
  have hle : mem.size + c.size * c.nmemb ≤ maxPayload := by
    rw [UInt64.le_iff_toNat_le, E.newSize]
    exact Nat.le_of_not_lt (not_or.mp hfits).2
  rw [writeMemoryCb_eq, if_neg hfits, storeChunk]
  split
  · next hgrow =>
    cases hrealloc : c.realloc with
    | none =>
      rw [UInt64.lt_iff_toNat_lt, E.reqCap] at hgrow
      exact absurd ⟨hfits, hgrow, by rw [hrealloc]; rfl⟩ hmemory
    | some fresh => exact ⟨E.realsize, rfl, buffered_grown H E hle hgrow fresh⟩
  · next hroom => exact ⟨E.realsize, rfl, buffered_room H E hle hroom⟩

theorem writeMemoryCb_refused (h : TooLarge maxPayload mem c) :
    writeMemoryCb maxPayload tls mem c = ⟨0, mem, tls⟩ := by
  rw [writeMemoryCb_eq, if_pos h]

theorem writeMemoryCb_lacksMemory (h : LacksMemory maxPayload mem c) :
    writeMemoryCb maxPayload tls mem c =
      ⟨0, {}, setThreadError tls .error (bytes "Out of memory in HTTP client write callback")⟩ := by
  obtain ⟨hfits, hgrow, hrealloc⟩ := h
  have hgrow : mem.capacity < mem.size + c.size * c.nmemb + 1 := by
    rwa [UInt64.lt_iff_toNat_lt, (Exact.of_not_tooLarge hfits).reqCap]
  rw [writeMemoryCb_eq, if_neg hfits, storeChunk, if_pos hgrow,
    Option.isNone_iff_eq_none.mp hrealloc]

/-! ## A transfer -/

/-- A transfer between two calls. -/
structure Transfer where
  chunk : MemoryStruct
  tls : ThreadLocals
  /-- History: the chunks that were accepted. -/
  accepted : Bytes := []
  /-- History: the chunks that were accepted since a call lacked memory. -/
  kept : Bytes := []
  /-- History: a call has lacked memory. -/
  lacked : Bool := false

/-- A call is accepted if it returns something. -/
def Transfer.call (maxPayload : UInt64) (t : Transfer) (c : Call) : Transfer :=
  let r := writeMemoryCb maxPayload t.tls t.chunk c
  let chunk := if r.ret ≠ 0 then c.chunk else []
  { chunk := r.chunk
    tls := r.tls
    accepted := t.accepted ++ chunk
    kept := if LacksMemory maxPayload t.chunk c then [] else t.kept ++ chunk
    lacked := t.lacked || LacksMemory maxPayload t.chunk c }

/-- What holds between the calls of a transfer. -/
structure Transfer.Inv (maxPayload : UInt64) (t : Transfer) : Prop where
  holds : Holds maxPayload t.kept t.chunk
  kept_eq : t.lacked = false → t.kept = t.accepted

section
variable {t : Transfer}

theorem Transfer.call_refused (h : TooLarge maxPayload t.chunk c) : t.call maxPayload c = t := by
  have hmemory : ¬LacksMemory maxPayload t.chunk c := fun hlacks => hlacks.1 h
  simp [Transfer.call, writeMemoryCb_refused h, hmemory]

theorem Transfer.call_lacksMemory (h : LacksMemory maxPayload t.chunk c) :
    t.call maxPayload c =
      { t with
        chunk := {}
        tls := setThreadError t.tls .error (bytes "Out of memory in HTTP client write callback")
        kept := []
        lacked := true } := by
  simp [Transfer.call, writeMemoryCb_lacksMemory h, h]

theorem Transfer.call_accepted (H : Holds maxPayload t.kept t.chunk)
    (hfits : ¬TooLarge maxPayload t.chunk c) (hmemory : ¬LacksMemory maxPayload t.chunk c) :
    t.call maxPayload c =
      { t with
        chunk := (writeMemoryCb maxPayload t.tls t.chunk c).chunk
        accepted := t.accepted ++ c.chunk
        kept := t.kept ++ c.chunk } := by
  obtain ⟨hret, htls, -⟩ := writeMemoryCb_accepted t.tls H hfits hmemory
  -- A call that returns 0 without being refused has an empty chunk.
  have hchunk : (if (writeMemoryCb maxPayload t.tls t.chunk c).ret ≠ 0 then c.chunk else []) =
      c.chunk := by
    split
    · rfl
    · next h =>
      rw [not_not.mp h] at hret
      rw [Call.chunk, ← hret]
      rfl
  simp [Transfer.call, hmemory, hchunk, htls]

theorem Transfer.Inv.call (H : t.Inv maxPayload) (c : Call) :
    (t.call maxPayload c).Inv maxPayload := by
  by_cases hfits : TooLarge maxPayload t.chunk c
  · rw [Transfer.call_refused hfits]
    exact H
  · by_cases hmemory : LacksMemory maxPayload t.chunk c
    · rw [Transfer.call_lacksMemory hmemory]
      exact ⟨.inr ⟨rfl, rfl⟩, nofun⟩
    · rw [Transfer.call_accepted H.holds hfits hmemory]
      exact ⟨.inl (writeMemoryCb_accepted t.tls H.holds hfits hmemory).2.2,
        fun h => congrArg (· ++ c.chunk) (H.kept_eq h)⟩

theorem Transfer.Inv.calls (H : t.Inv maxPayload) (calls : List Call) :
    (calls.foldl (Transfer.call maxPayload) t).Inv maxPayload := by
  induction calls generalizing t with
  | nil => exact H
  | cons c calls ih => exact ih (H.call c)

end

theorem setupCurlRequest_true {curl : Bool} {malloc : Option (Int → UInt8)} {appended : List Bool}
    {chunk start : MemoryStruct} {tls tls' : ThreadLocals}
    (h : setupCurlRequest curl malloc appended chunk tls = (true, start, tls')) :
    ∃ fresh, start = ⟨some (Mem.store { byte := fresh } 0 0), 0, httpClientChunkSize⟩ := by
  rw [setupCurlRequest.eq_def] at h
  split at h
  · cases h
  · split at h
    · cases h
    · next fresh =>
      split at h <;> cases h
      exact ⟨fresh, rfl⟩

/-- A transfer starts with an empty text. -/
theorem inv_of_setup {curl : Bool} {malloc : Option (Int → UInt8)} {appended : List Bool}
    {chunk start : MemoryStruct} {tls tls' : ThreadLocals}
    (h : setupCurlRequest curl malloc appended chunk tls = (true, start, tls')) :
    Transfer.Inv maxPayload { chunk := start, tls := tls' } := by
  obtain ⟨fresh, rfl⟩ := setupCurlRequest_true h
  have hwrote : Mem.Wrote { byte := fresh } 0 [0] (Mem.store { byte := fresh } 0 0) :=
    Mem.wrote_store
  refine ⟨.inl ⟨⟨_, rfl, hwrote.load_eq, fun k hk => ?_⟩, rfl, ?_, ?_⟩, fun _ => rfl⟩
  · rcases (hwrote.touched k).mp hk with hk | hk
    · cases hk
    · rw [List.length_singleton] at hk
      show 0 ≤ k ∧ k < (4096 : Nat)
      omega
  · exact show 0 < httpClientChunkSize by decide
  · exact UInt64.le_iff_toNat_le.mpr (Nat.zero_le _)

/-- One byte with room for it. -/
def byteCall (b : UInt8) : Call where
  contents := { byte := fun _ => b }
  size := 1
  nmemb := 1
  realloc := some fun _ => 0

/-- A chunk for which there is no memory. -/
def largeCall : Call where
  contents := { byte := fun _ => 0 }
  size := 1
  nmemb := 4096
  realloc := none

/-- The block holds the chunks that were accepted since a call lacked memory. These are all that
were accepted if there was no such call. -/
theorem writeMemoryCb_accumulates {curl : Bool} {malloc : Option (Int → UInt8)}
    {appended : List Bool} {chunk start : MemoryStruct} {tls tls' : ThreadLocals}
    (hsetup : setupCurlRequest curl malloc appended chunk tls = (true, start, tls'))
    (maxPayload : UInt64) (calls : List Call) (c : Call) :
    let t := calls.foldl (Transfer.call maxPayload) { chunk := start, tls := tls' }
    let r := writeMemoryCb maxPayload t.tls t.chunk c
    (r.ret ≠ 0 → r.ret.toNat = c.length ∧ Buffered maxPayload (t.kept ++ c.chunk) r.chunk ∧
        (Buffered maxPayload (t.accepted ++ c.chunk) r.chunk ↔ t.kept = t.accepted)) ∧
      (t.lacked = false → t.kept = t.accepted) ∧
      (¬TooLarge maxPayload t.chunk c → Exact t.chunk c) ∧
      (TooLarge maxPayload t.chunk c → r = ⟨0, t.chunk, t.tls⟩) ∧
      (LacksMemory maxPayload t.chunk c → r.ret = 0 ∧ r.chunk = {}) ∧
      (r.ret = 0 → c.length = 0 ∨ TooLarge maxPayload t.chunk c ∨
        LacksMemory maxPayload t.chunk c) := by
  intro t r
  have H : t.Inv maxPayload := (inv_of_setup hsetup).calls calls
  have hrefused : TooLarge maxPayload t.chunk c → r = ⟨0, t.chunk, t.tls⟩ := writeMemoryCb_refused
  have hlacks : LacksMemory maxPayload t.chunk c → r.ret = 0 ∧ r.chunk = {} := fun h => by
    rw [show r = _ from writeMemoryCb_lacksMemory h]
    exact ⟨rfl, rfl⟩
  refine ⟨fun hret => ?_, H.kept_eq, Exact.of_not_tooLarge, hrefused, hlacks, fun hret => ?_⟩
  · have hfits : ¬TooLarge maxPayload t.chunk c := fun h => hret (by rw [hrefused h])
    have hmemory : ¬LacksMemory maxPayload t.chunk c := fun h => hret (hlacks h).1
    obtain ⟨hlen, -, hbuffered⟩ := writeMemoryCb_accepted t.tls H.holds hfits hmemory
    refine ⟨hlen, hbuffered, fun h => ?_, fun h => h ▸ hbuffered⟩
    exact List.append_cancel_right (hbuffered.unique h)
  · by_cases hfits : TooLarge maxPayload t.chunk c
    · exact .inr (.inl hfits)
    · by_cases hmemory : LacksMemory maxPayload t.chunk c
      · exact .inr (.inr hmemory)
      · obtain ⟨hlen, -⟩ := writeMemoryCb_accepted t.tls H.holds hfits hmemory
        rw [show (writeMemoryCb maxPayload t.tls t.chunk c).ret = 0 from hret] at hlen
        exact .inl hlen.symm

/-- Two chunks in one text. -/
theorem writeMemoryCb_accumulates_two :
    let setup := setupCurlRequest true (some fun _ => 0) [true] {} {}
    let t := [byteCall 97].foldl (Transfer.call 5242880) { chunk := setup.2.1, tls := setup.2.2 }
    let r := writeMemoryCb 5242880 t.tls t.chunk (byteCall 98)
    setup.1 ∧ Buffered 5242880 [97, 98] r.chunk := by
  intro setup t r
  have hsetup : setupCurlRequest true (some fun _ => 0) [true] {} {} =
      (true, setup.2.1, setup.2.2) := rfl
  have hbuffered :=
    (writeMemoryCb_accumulates hsetup 5242880 [byteCall 97] (byteCall 98)).1 (by decide)
  have hkept : t.kept ++ (byteCall 98).chunk = [97, 98] := by decide
  exact ⟨rfl, hkept ▸ hbuffered.2.1⟩

/-- After a call that lacked memory, the next chunk that is accepted is alone. -/
theorem writeMemoryCb_forgets :
    let start := (setupCurlRequest true (some fun _ => 0) [] {} {}).2.1
    let t := [byteCall 97, largeCall].foldl (Transfer.call 5242880) { chunk := start, tls := {} }
    let r := writeMemoryCb 5242880 t.tls t.chunk (byteCall 98)
    r.ret = 1 ∧ t.accepted ++ (byteCall 98).chunk = [97, 98] ∧
      ¬Buffered 5242880 (t.accepted ++ (byteCall 98).chunk) r.chunk ∧
      r.chunk.memory.map (·.load 0 (r.chunk.size.toNat + 1)) = some [98, 0] := by
  intro start t r
  have haccepted : t.accepted ++ (byteCall 98).chunk = [97, 98] := by decide
  have hsize : r.chunk.size = 1 := by decide
  refine ⟨by decide, haccepted, fun h => ?_, by decide⟩
  have hlen := h.size_eq
  rw [haccepted, hsize] at hlen
  exact absurd hlen (by decide)

end ApiServer.HttpClient
