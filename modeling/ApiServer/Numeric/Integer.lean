import ApiServer.Numeric
import ApiServer.Lib.Memory

/-!
# Integer formatting in the caller's buffer (`lib/json_util.c`)

`Raw.fastItoa` and `Raw.fastLtoa` write the digits from the right, in blocks, starting at a position
that a separate count of the digits gives. The blocks are those of `fastItoa` and `fastLtoa`, the
count is the length of the decimal text, and so the text ends at the first byte of the buffer.
-/

namespace ApiServer
open Bytes

namespace Raw

def digitsLut : Bytes := bytes
  ("0001020304050607080910111213141516171819202122232425262728293031323334353637383940414243444546474849" ++
   "5051525354555657585960616263646566676869707172737475767778798081828384858687888990919293949596979899")

def write2 (dst : Int) (val : Nat) (buf : Mem) : Mem :=
  buf.storeAll dst ((digitsLut.drop (val * 2)).take 2)

/-- The block of four digits at `dst`. -/
def write4 (dst : Int) (rem : Nat) (buf : Mem) : Mem :=
  write2 dst (rem / 100) (write2 (dst + 2) (rem % 100) buf)

/-- The block of eight digits at `dst`, from `r1` and `r2`. -/
def write8 (dst : Int) (rem : Nat) (buf : Mem) : Mem :=
  write4 dst (rem / 10000) (write4 (dst + 4) (rem % 10000) buf)

/-- A `while` loop that splits the last digits off: as long as `val` has more than `base` allows,
`write` puts the remainder in front of `ptr`. It stops long before `fuel` turns. -/
def splitDigits (base width : Nat) (write : Int → Nat → Mem → Mem) :
    Nat → Nat → Int → Mem → Nat × Int × Mem
  | 0, val, ptr, buf => (val, ptr, buf)
  | fuel + 1, val, ptr, buf =>
    if base ≤ val then
      splitDigits base width write fuel (val / base) (ptr - width)
        (write (ptr - width) (val % base) buf)
    else (val, ptr, buf)

/-- The last one or two digits, in front of `ptr`. -/
def finishDigits (val : Nat) (ptr : Int) (buf : Mem) : Mem :=
  if val < 10 then buf.store (ptr - 1) (digitChar val) else write2 (ptr - 2) val buf

/-- Two digits at a time, and the last one or two. -/
def formatPairs (val : Nat) (ptr : Int) (buf : Mem) : Mem :=
  let (val, ptr, buf) := splitDigits 100 2 write2 val val ptr buf
  finishDigits val ptr buf

/-- All the digits of a `uint32_t` in front of `ptr`. -/
def formatU32 (val : Nat) (ptr : Int) (buf : Mem) : Mem :=
  let (val, ptr, buf) := splitDigits 10000 4 write4 val val ptr buf
  formatPairs val ptr buf

/-- All the digits of a `uint64_t` in front of `ptr`. -/
def formatU64 (val : Nat) (ptr : Int) (buf : Mem) : Mem :=
  let (val, ptr, buf) := splitDigits 100000000 8 write8 val val ptr buf
  formatU32 (val % 2 ^ 32) ptr buf

def fastItoa (val : Int32) (buf : Mem) (bufSize : Nat) : Nat × Mem :=
  if bufSize < 2 then (0, buf)
  else
    let neg := decide (val < 0)
    let uval := if neg then 0 - val.toUInt32 else val.toUInt32
    let len := countDigitsU32 uval.toNat + if neg then 1 else 0
    if bufSize < len + 1 then (0, buf)
    else
      let buf := formatU32 uval.toNat len (buf.store len 0)
      (len, if neg then buf.store 0 45 else buf)

def fastLtoa (val : Int64) (buf : Mem) (bufSize : Nat) : Nat × Mem :=
  if bufSize < 2 then (0, buf)
  else
    let neg := decide (val < 0)
    let uval := if neg then 0 - val.toUInt64 else val.toUInt64
    let len := countDigitsU64 uval.toNat + if neg then 1 else 0
    if bufSize < len + 1 then (0, buf)
    else
      let buf := formatU64 uval.toNat len (buf.store len 0)
      (len, if neg then buf.store 0 45 else buf)

end Raw

/-! ## Blocks -/

/-- `write` puts the `width` digits that `text` gives of a number below `base`. -/
structure WritesBlock (base width : Nat) (text : Nat → Bytes) (write : Int → Nat → Mem → Mem) :
    Prop where
  wrote : ∀ dst val, ∀ buf : Mem, val < base → buf.Wrote dst (text val) (write dst val buf)
  length_eq : ∀ val, (text val).length = width

/-- A table of entries of one length is read at the multiples of that length. -/
theorem take_drop_flatMap {f : Nat → Bytes} {k : Nat} (hf : ∀ n, (f n).length = k) {ns : List Nat}
    {i n : Nat} (h : ns[i]? = some n) : ((ns.flatMap f).drop (i * k)).take k = f n := by
  induction ns generalizing i with
  | nil => exact nomatch h
  | cons m ns ih =>
    rw [List.flatMap_cons]
    cases i with
    | zero =>
      rw [List.getElem?_cons_zero, Option.some.injEq] at h
      rw [Nat.zero_mul, List.drop_zero, h, ← hf n, List.take_left]
    | succ i =>
      rw [List.getElem?_cons_succ] at h
      rw [Nat.succ_mul, Nat.add_comm, ← hf m, List.drop_length_add_append, hf m]
      exact ih h

theorem digitsLut_eq : Raw.digitsLut = (List.range 100).flatMap write2 := by
  rw [Raw.digitsLut, bytes_append, bytes_ofList, bytes_ofList]
  decide +kernel

theorem writesBlock_write2 : WritesBlock 100 2 write2 Raw.write2 where
  wrote dst val buf h := by
    have hlut : (Raw.digitsLut.drop (val * 2)).take 2 = write2 val := by
      rw [digitsLut_eq]
      exact take_drop_flatMap (f := write2) (fun _ => rfl) (List.getElem?_range h)
    rw [Raw.write2, hlut]
    exact Mem.wrote_storeAll
  length_eq _ := rfl

/-- The block of twice as many digits, its end first. -/
theorem WritesBlock.square {base width : Nat} {text : Nat → Bytes} {write : Int → Nat → Mem → Mem}
    (h : WritesBlock base width text write) (hbase : 0 < base) :
    WritesBlock (base * base) (width + width) (fun n => text (n / base) ++ text (n % base))
      fun dst n buf => write dst (n / base) (write (dst + width) (n % base) buf) where
  wrote dst val buf hval := by
    have hend := h.wrote (dst + width) (val % base) buf (Nat.mod_lt _ hbase)
    refine hend.before (h.wrote dst (val / base) _ (Nat.div_lt_of_lt_mul hval)) ?_
    rw [h.length_eq]
  length_eq val := by rw [List.length_append, h.length_eq, h.length_eq]

theorem writesBlock_write4 : WritesBlock 10000 4 write4 Raw.write4 :=
  writesBlock_write2.square (by decide)

theorem writesBlock_write8 : WritesBlock 100000000 8 write8 Raw.write8 :=
  writesBlock_write4.square (by decide)

/-- The loop writes the blocks that `splitDigits` puts in front of the text. -/
theorem wrote_splitDigits {base width : Nat} {text : Nat → Bytes} {write : Int → Nat → Mem → Mem}
    (H : WritesBlock base width text write) (hbase : 0 < base) {m buf : Mem} {ptr : Int} {s : Bytes}
    (h : m.Wrote ptr s buf) (fuel val : Nat) :
    let (val', s') := splitDigits base text fuel val s
    ∃ ptr' buf', Raw.splitDigits base width write fuel val ptr buf = (val', ptr', buf') ∧
      ptr' + s'.length = ptr + s.length ∧ m.Wrote ptr' s' buf' := by
  induction fuel generalizing val ptr buf s with
  | zero => exact ⟨ptr, buf, rfl, rfl, h⟩
  | succ fuel ih =>
    rw [splitDigits, Raw.splitDigits]
    by_cases hge : base ≤ val
    · rw [if_pos hge, if_pos hge]
      have hblock := H.wrote (ptr - width) (val % base) buf (Nat.mod_lt _ hbase)
      have hlen := H.length_eq (val % base)
      have hnext : m.Wrote (ptr - width) (text (val % base) ++ s) _ :=
        h.before hblock (by omega)
      obtain ⟨ptr', buf', hrun, hptr, hwrote⟩ := ih hnext (val / base)
      refine ⟨ptr', buf', hrun, ?_, hwrote⟩
      rw [hptr, List.length_append]
      omega
    · rw [if_neg hge, if_neg hge]
      exact ⟨ptr, buf, rfl, rfl, h⟩

theorem wrote_finishDigits {m buf : Mem} {ptr : Int} {s : Bytes} (h : m.Wrote ptr s buf)
    {val : Nat} (hval : val < 100) :
    ∃ ptr' : Int, ptr' + (finishDigits val s).length = ptr + s.length ∧
      m.Wrote ptr' (finishDigits val s) (Raw.finishDigits val ptr buf) := by
  rw [finishDigits, Raw.finishDigits]
  split
  · refine ⟨ptr - 1, ?_, h.before (s := [digitChar val]) Mem.wrote_store (by simp)⟩
    rw [List.length_cons]
    omega
  · have hlen := writesBlock_write2.length_eq val
    refine ⟨ptr - 2, ?_, h.before (writesBlock_write2.wrote (ptr - 2) val buf hval) (by omega)⟩
    rw [List.length_append]
    omega

/-- `format` puts the decimal text of a number in front of what was written. -/
def FormatsDigits (bound : Nat) (format : Nat → Int → Mem → Mem) : Prop :=
  ∀ (m buf : Mem) (ptr : Int) (s : Bytes), m.Wrote ptr s buf → ∀ val < bound,
    ∃ ptr' : Int, ptr' + (Json.natText val ++ s).length = ptr + s.length ∧
      m.Wrote ptr' (Json.natText val ++ s) (format val ptr buf)

/-- A loop in front of a formatter that takes what the loop leaves. -/
theorem FormatsDigits.loop {base width bound : Nat} {text : Nat → Bytes}
    {write : Int → Nat → Mem → Mem} {format : Nat → Int → Mem → Mem}
    (H : FormatsDigits base format) (hblock : WritesBlock base width text write)
    (hsplit : Splits base text) (hbase : 1 < base) :
    FormatsDigits bound fun val ptr buf =>
      let (val, ptr, buf) := Raw.splitDigits base width write val val ptr buf
      format val ptr buf := by
  intro m buf ptr s h val _
  obtain ⟨ptr₁, buf₁, hrun, hptr, hwrote⟩ := wrote_splitDigits hblock (by omega) h val val
  have hspec := splitDigits_spec hsplit hbase (Nat.le_refl val) s
  obtain ⟨ptr₂, hptr₂, hwrote₂⟩ := H _ _ _ _ hwrote _ hspec.1
  rw [hspec.2] at hptr₂ hwrote₂
  simp only [hrun]
  exact ⟨ptr₂, hptr₂.trans hptr, hwrote₂⟩

theorem formatsDigits_finish : FormatsDigits 100 Raw.finishDigits := by
  intro m buf ptr s h val hval
  have := wrote_finishDigits h hval
  rwa [finishDigits_eq hval] at this

theorem formatsDigits_pairs (bound : Nat) : FormatsDigits bound Raw.formatPairs :=
  formatsDigits_finish.loop writesBlock_write2 splits_write2 (by decide)

theorem formatsDigits_u32 (bound : Nat) : FormatsDigits bound Raw.formatU32 :=
  (formatsDigits_pairs 10000).loop writesBlock_write4 splits_write4 (by decide)

theorem formatsDigits_u64 (bound : Nat) : FormatsDigits bound Raw.formatU64 := by
  have hrest : FormatsDigits 100000000 fun val => Raw.formatU32 (val % 2 ^ 32) := by
    intro m buf ptr s h val hval
    dsimp only
    rw [Nat.mod_eq_of_lt (by omega)]
    exact formatsDigits_u32 _ m buf ptr s h val hval
  exact hrest.loop writesBlock_write8 splits_write8 (by decide)

/-! ## The count of the digits -/

theorem natText_length_eq {n k : Nat} (hlo : 10 ^ k ≤ n) (hhi : n < 10 ^ (k + 1)) :
    (Json.natText n).length = k + 1 := by
  induction k generalizing n with
  | zero => rw [Json.natText_lt (by simpa using hhi)]; rfl
  | succ k ih =>
    rw [Nat.pow_succ] at hlo hhi
    have hpos : 0 < 10 ^ k := Nat.pow_pos (by decide)
    rw [Json.natText_ge (by omega), List.length_append,
      @ih (n / 10) (by omega) (by rw [Nat.pow_succ] at hhi ⊢; omega)]
    rfl

/-- One comparison of the count. -/
theorem ite_digits {n k e : Nat} (h : 10 ^ k ≤ n)
    (hrest : 10 ^ (k + 1) ≤ n → e = (Json.natText n).length) :
    (if n < 10 ^ (k + 1) then k + 1 else e) = (Json.natText n).length := by
  split
  · exact (natText_length_eq h ‹_›).symm
  · exact hrest (by omega)

theorem countDigitsU32_eq {n : Nat} (h : n < 2 ^ 32) :
    countDigitsU32 n = (Json.natText n).length := by
  by_cases hn : n < 10
  · rw [countDigitsU32, if_pos hn, Json.natText_lt hn]
    rfl
  rw [countDigitsU32, if_neg hn]
  refine ite_digits (k := 1) (by omega) fun h => ite_digits (k := 2) h fun h => ?_
  refine ite_digits (k := 3) h fun h => ite_digits (k := 4) h fun h => ?_
  refine ite_digits (k := 5) h fun h => ite_digits (k := 6) h fun h => ?_
  refine ite_digits (k := 7) h fun h => ite_digits (k := 8) h fun h => ?_
  exact (natText_length_eq (k := 9) h (by omega)).symm

theorem countDigitsU64_eq {n : Nat} (h : n < 2 ^ 64) :
    countDigitsU64 n = (Json.natText n).length := by
  have hmax : n < 10 ^ (19 + 1) := h.trans (by decide)
  by_cases hsmall : n < 1000000000
  · rw [countDigitsU64, if_pos hsmall]
    exact countDigitsU32_eq (by omega)
  rw [countDigitsU64, if_neg hsmall]
  refine ite_digits (k := 9) (not_lt.mp hsmall) fun h => ite_digits (k := 10) h fun h => ?_
  refine ite_digits (k := 11) h fun h => ite_digits (k := 12) h fun h => ?_
  refine ite_digits (k := 13) h fun h => ite_digits (k := 14) h fun h => ?_
  refine ite_digits (k := 15) h fun h => ite_digits (k := 16) h fun h => ?_
  refine ite_digits (k := 17) h fun h => ite_digits (k := 18) h fun h => ?_
  exact (natText_length_eq (k := 19) h hmax).symm

/-! ## The formatters -/

/-- The unsigned negation of a negative number is its absolute value, at the minimum too. -/
theorem toNat_negate {w : Nat} (x : BitVec w) :
    (if x.toInt < 0 then 0 - x else x).toNat = x.toInt.natAbs := by
  have hlt := x.isLt
  rw [BitVec.toInt_eq_toNat_cond]
  split
  · rw [if_neg (by omega), Int.natAbs_natCast]
  · rw [if_pos (by omega), BitVec.toNat_sub]
    simp only [BitVec.ofNat_eq_ofNat, BitVec.toNat_ofNat, Nat.zero_mod, Nat.add_zero]
    rw [Nat.mod_eq_of_lt (by omega)]
    omega

/-- The result is the text with its NUL, or nothing where that does not fit. -/
def FormatsExactly (text : Bytes) (bufSize : Nat) (buf : Mem) (result : Nat × Mem) : Prop :=
  if bufSize < 2 ∨ bufSize < text.length + 1 then result = (0, buf)
  else result.1 = text.length ∧ buf.Wrote 0 (text ++ [0]) result.2

theorem length_signed (neg : Bool) (text : Bytes) :
    (signed neg text).length = text.length + if neg then 1 else 0 := by
  cases neg <;> rfl

/-- Digits that end where they were counted to end leave room for the sign. -/
theorem FormatsDigits.signed {format : Nat → Int → Mem → Mem} {n : Nat}
    (H : FormatsDigits (n + 1) format) {neg : Bool} {len : Nat}
    (hlen : len = (Json.natText n).length + if neg then 1 else 0) {m buf : Mem} {s : Bytes}
    (h : m.Wrote len s buf) :
    let buf := format n len buf
    m.Wrote 0 (signed neg (Json.natText n) ++ s) (if neg then buf.store 0 45 else buf) := by
  obtain ⟨ptr, hptr, hwrote⟩ := H _ _ _ _ h n (Nat.lt_succ_self n)
  rw [List.length_append] at hptr
  cases neg with
  | false =>
    obtain rfl : ptr = 0 := by simp only [Bool.false_eq_true, if_false] at hlen; omega
    exact hwrote
  | true =>
    refine hwrote.before Mem.wrote_store ?_
    simp only [if_true] at hlen
    rw [List.length_singleton]
    omega

/-- What the two functions share behind the sign. -/
theorem formatsExactly {format : Nat → Int → Mem → Mem} {n : Nat} (H : FormatsDigits (n + 1) format)
    (neg : Bool) {len : Nat} (hlen : len = (Json.natText n).length + if neg then 1 else 0)
    (buf : Mem) (bufSize : Nat) :
    FormatsExactly (signed neg (Json.natText n)) bufSize buf
      (if bufSize < 2 then (0, buf)
      else if bufSize < len + 1 then (0, buf)
      else
        let buf := format n len (buf.store len 0)
        (len, if neg then buf.store 0 45 else buf)) := by
  rw [FormatsExactly, length_signed, ← hlen]
  by_cases h2 : bufSize < 2
  · rw [if_pos (.inl h2), if_pos h2]
  by_cases hfit : bufSize < len + 1
  · rw [if_pos (.inr hfit), if_neg h2, if_pos hfit]
  · rw [if_neg (by omega), if_neg h2, if_neg hfit]
    exact ⟨rfl, H.signed hlen Mem.wrote_store⟩

theorem formatsExactly_itoa (val : Int32) (buf : Mem) (bufSize : Nat) :
    FormatsExactly (Json.intText val.toInt) bufSize buf (Raw.fastItoa val buf bufSize) := by
  have hneg : decide (val.toInt < 0) = decide (val < 0) :=
    decide_eq_decide.mpr (Int32.lt_iff_toInt_lt (x := val) (y := 0)).symm
  have huval : (if decide (val < 0) then 0 - val.toUInt32 else val.toUInt32).toNat =
      val.toInt.natAbs := by
    rw [← hneg, ← Int32.toInt_toBitVec, ← toNat_negate]
    simp only [decide_eq_true_eq]
    split <;> rfl
  rw [← signed_natText, hneg, ← huval]
  exact formatsExactly (formatsDigits_u32 _) _ (by rw [countDigitsU32_eq (UInt32.toNat_lt _)]) buf
    bufSize

theorem formatsExactly_ltoa (val : Int64) (buf : Mem) (bufSize : Nat) :
    FormatsExactly (Json.intText val.toInt) bufSize buf (Raw.fastLtoa val buf bufSize) := by
  have hneg : decide (val.toInt < 0) = decide (val < 0) :=
    decide_eq_decide.mpr (Int64.lt_iff_toInt_lt (x := val) (y := 0)).symm
  have huval : (if decide (val < 0) then 0 - val.toUInt64 else val.toUInt64).toNat =
      val.toInt.natAbs := by
    rw [← hneg, ← Int64.toInt_toBitVec, ← toNat_negate]
    simp only [decide_eq_true_eq]
    split <;> rfl
  rw [← signed_natText, hneg, ← huval]
  exact formatsExactly (formatsDigits_u64 _) _ (by rw [countDigitsU64_eq (UInt64.toNat_lt _)]) buf
    bufSize

/-- Two results for one text are the same. -/
theorem FormatsExactly.unique {text : Bytes} {bufSize : Nat} {buf : Mem} {r r' : Nat × Mem}
    (h : FormatsExactly text bufSize buf r) (h' : FormatsExactly text bufSize buf r') :
    r.1 = r'.1 ∧ r.2.byte = r'.2.byte := by
  unfold FormatsExactly at h h'
  split at h
  · rw [if_pos ‹_›] at h'
    rw [h, h']
    exact ⟨rfl, rfl⟩
  · rw [if_neg ‹_›] at h'
    exact ⟨h.1.trans h'.1.symm, h.2.unique h'.2⟩

/-- Both formatters write the decimal text, and so the same for a number that has both types. -/
theorem integer_formatting (v : Int32) (w : Int64) (buf : Mem) (bufSize : Nat) :
    FormatsExactly (Json.intText v.toInt) bufSize buf (Raw.fastItoa v buf bufSize) ∧
    FormatsExactly (Json.intText w.toInt) bufSize buf (Raw.fastLtoa w buf bufSize) ∧
    (Raw.fastLtoa v.toInt64 buf bufSize).1 = (Raw.fastItoa v buf bufSize).1 ∧
    (Raw.fastLtoa v.toInt64 buf bufSize).2.byte = (Raw.fastItoa v buf bufSize).2.byte := by
  refine ⟨formatsExactly_itoa v buf bufSize, formatsExactly_ltoa w buf bufSize, ?_⟩
  have hlong := formatsExactly_ltoa v.toInt64 buf bufSize
  rw [Int32.toInt_toInt64] at hlong
  exact hlong.unique (formatsExactly_itoa v buf bufSize)

end ApiServer
