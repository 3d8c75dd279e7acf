import ApiServer.Lib.Decimal
import ApiServer.Numeric.Integer

/-!
# Decimal formatting in the caller's buffer (`lib/json_util.c`)

`fast_dtoa` writes the integer part, then six rounded digits of the fraction, and then goes back
over the zeros at their end. A fraction that rounds up to one has seven digits: the first is lost,
the six zeros are stripped, and the integer part stands as it was written.
-/

namespace ApiServer
open Bytes

namespace Raw

def formatIntPart (tempInt : Nat) (buf : Mem) (pos : Nat) : Mem := formatPairs tempInt pos buf

/-- `while (pos > len && buf[pos - 1] == '0') pos--`. -/
def stripZeros (buf : Mem) (len : Nat) : Nat → Nat
  | 0 => 0
  | pos + 1 => if len < pos + 1 ∧ buf.byte pos = 48 then stripZeros buf len pos else pos + 1

def formatFracPart (frac : Rat) (buf : Mem) (pos bufSize len : Nat) : Nat × Mem :=
  if 1 / 1000000000 < frac ∧ pos + 8 < bufSize then
    let buf := buf.store pos 46
    let pos := pos + 1
    let fracDigits := (frac * 1000000 + 1 / 2).floor.toNat
    -- the turns for `i` five, three and one
    let buf := write2 (pos + 4 : Nat) (fracDigits % 100) buf
    let buf := write2 (pos + 2 : Nat) (fracDigits / 100 % 100) buf
    let buf := write2 pos (fracDigits / 100 / 100 % 100) buf
    let pos := stripZeros buf len (pos + 6)
    (if len < pos ∧ buf.byte (pos - 1 : Nat) = 46 then pos - 1 else pos, buf)
  else (pos, buf)

/-- `fmt17g` is what `snprintf` makes of `%.17g`. -/
def fastDtoa (fmt17g : Rat → Bytes) (val : Dbl) (buf : Mem) (bufSize : Nat) : Nat × Mem :=
  if bufSize < 2 then (0, buf)
  else
    match val with
    | .nan | .inf _ => (1, (buf.store 0 48).store 1 0)
    | .fin d =>
      if 1000000000000000 < d.val ∨ d.val < -1000000000000000 then
        let text := fmt17g d.val
        (if 0 < text.length ∧ text.length < bufSize then text.length else 0,
          buf.storeAll 0 (snprintf bufSize text ++ [0]))
      else
        let absVal := if d.signbit then -d.val else d.val
        let intPart := absVal.floor.toNat
        let len := countDigitsU64 intPart + if d.signbit then 1 else 0
        if bufSize < len + 1 then (0, buf)
        else
          let buf := formatIntPart intPart buf len
          let buf := if d.signbit then buf.store 0 45 else buf
          let (pos, buf) := formatFracPart (absVal - intPart) buf len bufSize len
          let buf := if pos = 1 ∧ buf.byte 0 = 45 then buf.store 0 48 else buf
          (pos, buf.store pos 0)

end Raw

/-- What is asked of the result for `val`: a JSON number in the buffer that is close to `val`. -/
structure FormatsAccurately (val : Rat) (result : Nat × Mem) (text : Bytes) : Prop where
  load_eq : result.2.load 0 (text.length + 1) = text ++ [0]
  length_eq : result.1 = text.length
  number : ∃ v, Json.number text = some (v, [])
  noZeros : 46 ∈ text → text.getLast? ≠ some 48
  close : |Json.numberVal text - val| ≤ 5 / 10000000

/-! ## The fraction -/

theorem stripZeros_load (buf : Mem) (len n : Nat) :
    Raw.stripZeros buf len (len + n) = len + (Json.stripZeros (buf.load len n)).length := by
  induction n with
  | zero =>
    cases len with
    | zero => rfl
    | succ len => exact if_neg (by omega)
  | succ n ih =>
    rw [Mem.load_append, Mem.load, Mem.load, Json.stripZeros_concat, ← Nat.add_assoc, Raw.stripZeros,
      ih]
    by_cases hzero : buf.byte (len + n) = 48
    · rw [if_pos ⟨by omega, by exact_mod_cast hzero⟩, if_pos hzero]
    · rw [if_neg fun h => hzero (by exact_mod_cast h.2), if_neg hzero, List.length_append,
        Mem.length_load]
      rfl

/-- The six digits that are written. -/
def sixDigits (digits : Nat) : Bytes :=
  write2 (digits / 100 / 100 % 100) ++ (write2 (digits / 100 % 100) ++ write2 (digits % 100))

/-- The digits that are left behind the point. -/
def fracText (frac : Rat) : Bytes :=
  if 1 / 1000000000 < frac then Json.stripZeros (sixDigits (frac * 1000000 + 1 / 2).floor.toNat)
  else []

theorem isDigit_sixDigits (digits : Nat) : ∀ c ∈ sixDigits digits, isDigit c = true := by
  have hpair : ∀ v, ∀ c ∈ write2 (v % 100), isDigit c = true := by
    intro v c hc
    rcases List.mem_pair.mp hc with rfl | rfl
    · exact isDigit_digit (by omega)
    · exact isDigit_digit (by omega)
  intro c hc
  rcases List.mem_append.mp hc with hc | hc
  · exact hpair _ c hc
  rcases List.mem_append.mp hc with hc | hc
  · exact hpair _ c hc
  · exact hpair _ c hc

theorem isDigit_fracText (frac : Rat) : ∀ c ∈ fracText frac, isDigit c = true := by
  unfold fracText
  split
  · exact fun c hc => isDigit_sixDigits _ c ((Json.stripZeros_prefix _).mem hc)
  · exact fun c hc => absurd hc List.not_mem_nil

theorem digitsVal_sixDigits (digits : Nat) : digitsVal (sixDigits digits) = digits % 1000000 := by
  have hdigit : ∀ d < 10, (digitChar d).toNat - 48 = d := fun d hd => by
    rw [digitChar, digit_toNat hd]
    omega
  simp only [sixDigits, write2, List.cons_append, List.nil_append, digitsVal, List.foldl_cons,
    List.foldl_nil]
  rw [hdigit _ (by omega), hdigit _ (by omega), hdigit _ (by omega), hdigit _ (by omega),
    hdigit _ (by omega), hdigit _ (by omega)]
  omega

/-- The point, and behind it the three pairs from the right. -/
theorem wrote_fraction (buf : Mem) (pos digits : Nat) :
    buf.Wrote pos (46 :: sixDigits digits)
      (Raw.write2 (pos + 1 : Nat) (digits / 100 / 100 % 100)
        (Raw.write2 (pos + 1 + 2 : Nat) (digits / 100 % 100)
          (Raw.write2 (pos + 1 + 4 : Nat) (digits % 100) (buf.store pos 46)))) := by
  have hpair (dst : Int) (v : Nat) (m : Mem) : m.Wrote dst (write2 (v % 100)) _ :=
    writesBlock_write2.wrote dst (v % 100) m (Nat.mod_lt _ (by decide))
  have hpoint : buf.Wrote pos [46] (buf.store pos 46) := Mem.wrote_store
  have hlow := hpair (pos + 1 + 4 : Nat) digits (buf.store pos 46)
  have hmid := hlow.before (hpair (pos + 1 + 2 : Nat) (digits / 100) _) rfl
  exact hpoint.then (hmid.before (hpair (pos + 1 : Nat) (digits / 100 / 100) _) rfl) rfl

/-- Going back over the zeros behind the point, and over the point if nothing else is there. -/
theorem strip_fraction {buf : Mem} {len digits : Nat}
    (h : buf.load len 7 = 46 :: sixDigits digits) :
    let fs := Json.stripZeros (sixDigits digits)
    let pos := Raw.stripZeros buf len (len + 1 + 6)
    (if len < pos ∧ buf.byte (pos - 1 : Nat) = 46 then pos - 1 else pos) =
      len + (Json.pointed fs).length := by
  have hpart := Json.stripZeros_prefix (sixDigits digits)
  have hdigits := isDigit_sixDigits digits
  rw [Nat.add_assoc, stripZeros_load, h, Json.stripZeros_cons (by decide), List.length_cons]
  generalize Json.stripZeros (sixDigits digits) = fs at hpart
  have hlen : fs.length ≤ 6 := hpart.length_le
  dsimp only
  rw [show len + (fs.length + 1) - 1 = len + fs.length by omega]
  have hbyte := Mem.byte_of_load buf len (show fs.length < 7 by omega)
  rw [h] at hbyte
  cases fs with
  | nil =>
    have h46 : buf.byte (len + 0 : Nat) = 46 := (Option.some.inj hbyte).symm
    rw [List.length_nil, if_pos ⟨by omega, h46⟩]
    rfl
  | cons c fs =>
    -- the byte in front of `pos` is a digit
    rw [List.length_cons, List.getElem?_cons_succ] at hbyte
    have hne : buf.byte (len + (fs.length + 1) : Nat) ≠ 46 := by
      intro h46
      have hmem : (46 : UInt8) ∈ sixDigits digits := by
        refine List.mem_of_getElem? (i := fs.length) ?_
        rw [hbyte, ← h46]
        push_cast
        rfl
      exact absurd (hdigits 46 hmem) (by decide)
    rw [List.length_cons, if_neg fun h => hne h.2]
    rfl

/-- The fraction is written behind the integer part, without the zeros at its end. -/
theorem formatFracPart_spec (frac : Rat) (buf : Mem) {len bufSize : Nat} (h : len + 8 < bufSize) :
    let r := Raw.formatFracPart frac buf len bufSize len
    r.1 = len + (Json.pointed (fracText frac)).length ∧
      r.2.load len (Json.pointed (fracText frac)).length = Json.pointed (fracText frac) ∧
      ∀ k : Int, k < len → r.2.byte k = buf.byte k := by
  by_cases hfrac : 1 / 1000000000 < frac
  · rw [Raw.formatFracPart, if_pos ⟨hfrac, h⟩, fracText, if_pos hfrac]
    generalize (frac * 1000000 + 1 / 2).floor.toNat = digits
    have hwrote := wrote_fraction buf len digits
    have hpart : Json.pointed (Json.stripZeros (sixDigits digits)) <+: 46 :: sixDigits digits := by
      rw [Json.pointed]
      split
      · exact List.nil_prefix
      · exact List.cons_prefix_cons.mpr ⟨rfl, Json.stripZeros_prefix _⟩
    exact ⟨strip_fraction hwrote.load_eq,
      Mem.load_of_prefix hwrote.load_eq hpart,
      fun k hk => hwrote.frame k (.inl hk)⟩
  · rw [Raw.formatFracPart, if_neg fun h => hfrac h.1, fracText, if_neg hfrac]
    exact ⟨rfl, rfl, fun _ _ => rfl⟩

/-! ## The whole text -/

/-- The rational without its sign bit. -/
def FinDouble.absVal (d : FinDouble) : Rat := if d.signbit then -d.val else d.val

/-- What `fast_dtoa` writes: sign, integer part and what is left of the fraction. -/
def FinDouble.text (d : FinDouble) : Bytes :=
  Json.decimalText d.signbit d.absVal.floor.toNat (fracText (d.absVal - d.absVal.floor.toNat))

theorem FinDouble.absVal_eq (d : FinDouble) : d.absVal = |d.val| := by
  unfold absVal
  cases hs : d.signbit with
  | true =>
    have hle : d.val ≤ 0 := not_lt.mp fun h => by simp [d.of_pos h] at hs
    rw [if_pos rfl, abs_of_nonpos hle]
  | false =>
    have hle : 0 ≤ d.val := not_lt.mp fun h => by simp [d.of_neg h] at hs
    rw [if_neg (by decide), abs_of_nonneg hle]

/-- The integer part of a nonnegative rational, as the code computes it. -/
theorem cast_floor_toNat {q : Rat} (h : 0 ≤ q) : (q.floor.toNat : Rat) = ⌊q⌋ := by
  have hfloor : 0 ≤ q.floor := Rat.le_floor_iff.mpr (by simpa using h)
  exact_mod_cast Int.toNat_of_nonneg hfloor

theorem FinDouble.intPart_le (d : FinDouble) (h : |d.val| ≤ 1000000000000000) :
    d.absVal.floor.toNat ≤ 1000000000000000 := by
  have hcast := cast_floor_toNat (d.absVal_eq ▸ abs_nonneg d.val)
  have hle := Int.floor_le d.absVal
  rw [← d.absVal_eq] at h
  rw [← hcast] at hle
  exact_mod_cast hle.trans h

theorem decimalText_eq (neg : Bool) (n : Nat) (fs : Bytes) :
    Json.decimalText neg n fs = signed neg (Json.natText n) ++ Json.pointed fs := by
  cases neg <;> rfl

/-- A minus sign does not stand alone. -/
theorem not_lone_minus {neg : Bool} {n : Nat} {fs : Bytes}
    (h : (Json.decimalText neg n fs).length = 1) :
    (Json.decimalText neg n fs)[0]? ≠ some 45 := by
  obtain ⟨hdigit, hne, -⟩ := Json.natText_spec n
  obtain ⟨c, t, ht⟩ := List.exists_cons_of_ne_nil hne
  rw [decimalText_eq, ht] at h ⊢
  cases neg with
  | true => simp [signed] at h
  | false =>
    have hc : c ≠ 45 := by
      rintro rfl
      exact absurd (hdigit 45 (by rw [ht]; exact List.mem_cons_self ..)) (by decide)
    simpa [signed] using hc

/-- Behind the integer part: the fraction and the NUL. -/
theorem finish_spec {m buf : Mem} {neg : Bool} {n len bufSize : Nat} (frac : Rat)
    (hint : m.Wrote 0 (signed neg (Json.natText n)) buf)
    (hlen : len = (Json.natText n).length + if neg then 1 else 0) (h : len + 8 < bufSize) :
    let r := Raw.formatFracPart frac buf len bufSize len
    let text := Json.decimalText neg n (fracText frac)
    r.1 = text.length ∧
      ((if r.1 = 1 ∧ r.2.byte 0 = 45 then r.2.store 0 48 else r.2).store r.1 0).load 0
        (text.length + 1) = text ++ [0] := by
  obtain ⟨hpos, hfrac, hframe⟩ := formatFracPart_spec frac buf h
  generalize Raw.formatFracPart frac buf len bufSize len = r at hpos hfrac hframe
  have hsigned : (signed neg (Json.natText n)).length = len := by rw [length_signed, ← hlen]
  have htext : r.2.load 0 r.1 = Json.decimalText neg n (fracText frac) := by
    have hhead : r.2.load 0 len = signed neg (Json.natText n) := by
      rw [Mem.load_congr fun k _ hk => hframe k (by omega), ← hsigned, hint.load_eq]
    rw [hpos, Mem.load_append, hhead, Int.zero_add, hfrac, decimalText_eq]
  have hfirst : r.1 = (Json.decimalText neg n (fracText frac)).length := by
    rw [← htext, Mem.length_load]
  have hminus : ¬(r.1 = 1 ∧ r.2.byte 0 = 45) := by
    rintro ⟨h1, h45⟩
    have hbyte := Mem.byte_of_load r.2 0 (show 0 < r.1 by omega)
    rw [htext] at hbyte
    exact not_lone_minus (hfirst ▸ h1) (hbyte.trans (congrArg some h45))
  have hnul : r.2.Wrote r.1 [0] (r.2.store r.1 0) := Mem.wrote_store
  dsimp only
  refine ⟨hfirst, ?_⟩
  rw [if_neg hminus, ← hfirst, Mem.load_append, Int.zero_add,
    Mem.load_congr fun k _ hk => hnul.frame k (.inl (by omega)), htext]
  exact congrArg _ hnul.load_eq

theorem fastDtoa_spec (fmt17g : Rat → Bytes) (d : FinDouble) (hval : |d.val| ≤ 1000000000000000)
    (buf : Mem) {bufSize : Nat} (h : 64 ≤ bufSize) :
    let r := Raw.fastDtoa fmt17g (.fin d) buf bufSize
    r.1 = d.text.length ∧ r.2.load 0 (d.text.length + 1) = d.text ++ [0] := by
  obtain ⟨hlo, hhi⟩ := abs_le.mp hval
  have hn := d.intPart_le hval
  have hcount := countDigitsU64_eq (show d.absVal.floor.toNat < 2 ^ 64 by omega)
  have hdigits := Json.natText_length d.absVal.floor.toNat 15 (by omega)
  rw [Raw.fastDtoa, if_neg (by omega)]
  dsimp only
  rw [if_neg (by rintro (h | h) <;> linarith), ← FinDouble.absVal, hcount]
  generalize hlen : (Json.natText d.absVal.floor.toNat).length + (if d.signbit then 1 else 0) = len
  have hle : len ≤ 17 := by rw [← hlen]; split <;> omega
  rw [if_neg (by omega)]
  have hint := (formatsDigits_pairs _).signed hlen.symm (Mem.wrote_nil (m := buf) (i := len))
  rw [List.append_nil] at hint
  exact finish_spec _ hint hlen.symm (show len + 8 < bufSize by omega)

/-! ## The text without its buffer -/

theorem formatIntPart_eq (n : Nat) : formatIntPart n = Json.natText n := by
  obtain ⟨hlt, htext⟩ := splitDigits_spec splits_write2 (by decide) (Nat.le_refl n) []
  rw [formatIntPart]
  dsimp only
  rw [finishDigits_eq hlt, htext, List.append_nil]

theorem formatFracPart_eq (frac : Rat) {pos bufSize : Nat} (h : pos + 8 < bufSize) :
    formatFracPart frac pos bufSize = Json.pointed (fracText frac) := by
  by_cases hfrac : 1 / 1000000000 < frac
  · rw [formatFracPart, if_pos ⟨hfrac, h⟩, fracText, if_pos hfrac]
    generalize (frac * 1000000 + 1 / 2).floor.toNat = digits
    have hsix : write2 (digits / 10000 % 100) ++ write2 (digits / 100 % 100) ++
        write2 (digits % 100) = sixDigits digits := by
      rw [sixDigits, Nat.div_div_eq_div_mul, List.append_assoc]
    dsimp only
    rw [hsix, Json.pointed, Json.stripZeros, List.rdropWhile]
    simp only [List.cons.injEq, true_and]
  · rw [formatFracPart, if_neg fun h => hfrac h.1, fracText, if_neg hfrac]
    rfl

/-- `fastDtoa` returns what is left in the buffer. -/
theorem fastDtoa_eq (fmt17g : Rat → Bytes) (d : FinDouble) (hval : |d.val| ≤ 1000000000000000)
    {bufSize : Nat} (h : 64 ≤ bufSize) : fastDtoa fmt17g (.fin d) bufSize = d.text := by
  obtain ⟨hlo, hhi⟩ := abs_le.mp hval
  have hcount := countDigitsU64_le d.absVal.floor.toNat
  have hone : (if d.signbit = true then 1 else 0) ≤ 1 := ite_le (Nat.le_refl 1) (Nat.zero_le 1)
  rw [fastDtoa, if_neg (by omega)]
  dsimp only
  rw [if_neg (by rintro (h | h) <;> linarith), ← FinDouble.absVal, if_neg (by omega),
    formatIntPart_eq, formatFracPart_eq _ (by omega), FinDouble.text, decimalText_eq]

/-! ## Accuracy -/

theorem fracVal_sixDigits (digits : Nat) :
    Json.fracVal (sixDigits digits) = (digits % 1000000 : Nat) / 1000000 := by
  have hlen : (sixDigits digits).length = 6 := rfl
  rw [Json.fracVal, digitsVal_sixDigits, hlen]
  norm_num

/-- The digits behind the point are as close as six digits get, unless the fraction rounds up to
one. -/
theorem fracText_close_iff {frac : Rat} (h0 : 0 ≤ frac) (h1 : frac < 1) :
    |Json.fracVal (fracText frac) - frac| ≤ 5 / 10000000 ↔ frac < 9999995 / 10000000 := by
  by_cases hsmall : 1 / 1000000000 < frac
  · have hcast := cast_floor_toNat (show 0 ≤ frac * 1000000 + 1 / 2 by linarith)
    have hle := Int.floor_le (frac * 1000000 + 1 / 2)
    have hlt := Int.lt_floor_add_one (frac * 1000000 + 1 / 2)
    rw [← hcast] at hle hlt
    rw [fracText, if_pos hsmall, Json.fracVal_stripZeros, fracVal_sixDigits]
    generalize (frac * 1000000 + 1 / 2).floor.toNat = digits at hle hlt
    constructor
    · -- the seventh digit is lost
      contrapose!
      intro hround
      have hdigits : digits = 1000000 := by
        have hlo : 1000000 < digits + 1 := by
          exact_mod_cast (show (1000000 : Rat) < digits + 1 by linarith)
        have hhi : digits < 1000001 := by
          exact_mod_cast (show (digits : Rat) < 1000001 by linarith)
        omega
      rw [hdigits, abs_sub_comm, abs_of_nonneg (by norm_num; exact h0)]
      norm_num
      linarith
    · intro hround
      have hdigits : digits < 1000000 := by
        exact_mod_cast (show (digits : Rat) < 1000000 by linarith)
      rw [Nat.mod_eq_of_lt hdigits, abs_le]
      constructor <;> linarith
  · have hnone : Json.fracVal [] = 0 := by simp [Json.fracVal, digitsVal]
    rw [fracText, if_neg hsmall, hnone, abs_sub_comm, sub_zero, abs_of_nonneg h0]
    constructor <;> intro <;> linarith

/-- No zero ends the digits behind the point. -/
theorem getLast?_decimalText {neg : Bool} {n : Nat} {frac : Rat}
    (h : 46 ∈ Json.decimalText neg n (fracText frac)) :
    (Json.decimalText neg n (fracText frac)).getLast? ≠ some 48 := by
  have hint : 46 ∉ signed neg (Json.natText n) := by
    have hdigit : 46 ∉ Json.natText n := fun h =>
      absurd ((Json.natText_spec n).1 46 h) (by decide)
    cases neg with
    | false => exact hdigit
    | true => simpa [signed] using hdigit
  have hlast : (fracText frac).getLast? ≠ some 48 := by
    unfold fracText
    split
    · exact Json.getLast?_stripZeros _
    · simp
  rw [decimalText_eq] at h ⊢
  have hpoint := (List.mem_append.mp h).resolve_left hint
  unfold Json.pointed at hpoint ⊢
  split
  · rw [if_pos ‹_›] at hpoint
    exact absurd hpoint List.not_mem_nil
  · obtain ⟨c, fs, hfs⟩ := List.exists_cons_of_ne_nil ‹_›
    rw [hfs] at hlast ⊢
    simpa [List.getLast?_append, List.getLast?_cons_cons] using hlast

/-- How far the text is from the value is decided behind the point. -/
theorem FinDouble.text_distance (d : FinDouble) :
    |Json.numberVal d.text - d.val| =
      |Json.fracVal (fracText (d.absVal - d.absVal.floor.toNat)) -
        (d.absVal - d.absVal.floor.toNat)| := by
  rw [FinDouble.text, Json.numberVal_decimalText _ _ (isDigit_fracText _)]
  generalize Json.fracVal (fracText (d.absVal - d.absVal.floor.toNat)) = x
  generalize (d.absVal.floor.toNat : Rat) = n
  rw [FinDouble.absVal]
  cases d.signbit with
  | true =>
    rw [if_pos rfl, if_pos rfl, abs_sub_comm]
    congr 1
    ring
  | false =>
    rw [if_neg Bool.false_ne_true, if_neg Bool.false_ne_true]
    congr 1
    ring

theorem FinDouble.fract_eq (d : FinDouble) :
    d.absVal - d.absVal.floor.toNat = Int.fract |d.val| := by
  rw [cast_floor_toNat (d.absVal_eq ▸ abs_nonneg d.val), ← d.absVal_eq]
  rfl

theorem FinDouble.text_close_iff (d : FinDouble) :
    |Json.numberVal d.text - d.val| ≤ 5 / 10000000 ↔ Int.fract |d.val| < 9999995 / 10000000 := by
  rw [d.text_distance, d.fract_eq, fracText_close_iff (Int.fract_nonneg _) (Int.fract_lt_one _)]

/-- There is one text in the buffer, and its distance counts. -/
theorem FormatsAccurately.fract_lt {fmt17g : Rat → Bytes} {d : FinDouble} {buf : Mem}
    {bufSize : Nat} {text : Bytes}
    (H : FormatsAccurately d.val (Raw.fastDtoa fmt17g (.fin d) buf bufSize) text)
    (hval : |d.val| ≤ 1000000000000000) (h : 64 ≤ bufSize) :
    Int.fract |d.val| < 9999995 / 10000000 := by
  obtain ⟨hlen, hload⟩ := fastDtoa_spec fmt17g d hval buf h
  have hsame : text.length = d.text.length := H.length_eq.symm.trans hlen
  have heq : text ++ [0] = d.text ++ [0] := by rw [← H.load_eq, hsame, hload]
  rw [← d.text_close_iff, ← List.append_cancel_right heq]
  exact H.close

/-- The text is a JSON number close to the value, unless the fraction rounds up to one. -/
theorem fastDtoa_accurate_iff (fmt17g : Rat → Bytes) (d : FinDouble)
    (hval : |d.val| ≤ 1000000000000000) (buf : Mem) (bufSize : Nat) (h : 64 ≤ bufSize) :
    (∃ text, FormatsAccurately d.val (Raw.fastDtoa fmt17g (.fin d) buf bufSize) text) ↔
      Int.fract |d.val| < 9999995 / 10000000 := by
  constructor
  · rintro ⟨text, H⟩
    exact H.fract_lt hval h
  · intro hfract
    obtain ⟨hlen, hload⟩ := fastDtoa_spec fmt17g d hval buf h
    exact ⟨d.text, hload, hlen, Json.number_decimalText _ _ (isDigit_fracText _),
      getLast?_decimalText, d.text_close_iff.mpr hfract⟩

/-- Minus one eighth. -/
theorem fastDtoa_accurate_eighth :
    ∃ text, FormatsAccurately (-1 / 8)
      (Raw.fastDtoa (fun _ => []) (.fin (.ofRat (-1 / 8))) ⟨fun _ => 0, []⟩ 64) text := by
  have habs : |(FinDouble.ofRat (-1 / 8)).val| = 1 / 8 := by norm_num [FinDouble.ofRat, abs_of_neg]
  have hfract : Int.fract (1 / 8 : Rat) = 1 / 8 := Int.fract_eq_self.mpr (by norm_num)
  exact (fastDtoa_accurate_iff (fun _ => []) (.ofRat (-1 / 8)) (by rw [habs]; norm_num)
    ⟨fun _ => 0, []⟩ 64 (by decide)).mpr (by rw [habs, hfract]; norm_num)

/-- Two less `2 ^ -23`, a double, is written as one. -/
theorem fastDtoa_carry_lost :
    ¬∃ text, FormatsAccurately (16777215 / 8388608)
      (Raw.fastDtoa (fun _ => []) (.fin (.ofRat (16777215 / 8388608))) ⟨fun _ => 0, []⟩ 64)
      text := by
  rintro ⟨text, H⟩
  have habs : |(FinDouble.ofRat (16777215 / 8388608)).val| = 1 + 8388607 / 8388608 := by
    norm_num [FinDouble.ofRat, abs_of_pos]
  have hfract : Int.fract (1 + 8388607 / 8388608 : Rat) = 8388607 / 8388608 := by
    rw [Int.fract_one_add]
    exact Int.fract_eq_self.mpr (by norm_num)
  have hlt := FormatsAccurately.fract_lt (d := .ofRat (16777215 / 8388608)) H
    (by rw [habs]; norm_num) (by decide)
  rw [habs, hfract] at hlt
  norm_num at hlt

end ApiServer
