import ApiServer.JsonC

/-!
# Number formatting (`lib/json_util.c`)

The formatters return the text they leave in a buffer of `bufSize` bytes, nothing when they return
zero. Digits are written from the right, two at a time.
-/

namespace ApiServer
open Bytes

def digitChar (d : Nat) : UInt8 := UInt8.ofNat (48 + d)

/-- `write2`, of a number below one hundred. -/
def write2 (val : Nat) : Bytes := [digitChar (val / 10), digitChar (val % 10)]

def countDigitsU32 (val : Nat) : Nat :=
  if val < 10 then 1
  else if val < 100 then 2
  else if val < 1000 then 3
  else if val < 10000 then 4
  else if val < 100000 then 5
  else if val < 1000000 then 6
  else if val < 10000000 then 7
  else if val < 100000000 then 8
  else if val < 1000000000 then 9
  else 10

def countDigitsU64 (val : Nat) : Nat :=
  if val < 1000000000 then countDigitsU32 val
  else if val < 10000000000 then 10
  else if val < 100000000000 then 11
  else if val < 1000000000000 then 12
  else if val < 10000000000000 then 13
  else if val < 100000000000000 then 14
  else if val < 1000000000000000 then 15
  else if val < 10000000000000000 then 16
  else if val < 100000000000000000 then 17
  else if val < 1000000000000000000 then 18
  else if val < 10000000000000000000 then 19
  else 20

/-- A `while` loop that splits the last digits off: as long as `val` has more than `base` allows,
`write` puts the remainder in front of the text. It stops long before `fuel` turns. -/
def splitDigits (base : Nat) (write : Nat → Bytes) : Nat → Nat → Bytes → Nat × Bytes
  | 0, val, text => (val, text)
  | fuel + 1, val, text =>
    if base ≤ val then splitDigits base write fuel (val / base) (write (val % base) ++ text)
    else (val, text)

def write4 (val : Nat) : Bytes := write2 (val / 100) ++ write2 (val % 100)

def write8 (val : Nat) : Bytes := write4 (val / 10000) ++ write4 (val % 10000)

/-- The last one or two digits, in front of the text. -/
def finishDigits (val : Nat) (text : Bytes) : Bytes :=
  if val < 10 then digitChar val :: text else write2 val ++ text

def signed (neg : Bool) (text : Bytes) : Bytes := if neg then 45 :: text else text

def fastItoa (val : Int) (bufSize : Nat) : Bytes :=
  if bufSize < 2 then []
  else
    let uval := val.natAbs
    let len := countDigitsU32 uval + if val < 0 then 1 else 0
    if bufSize < len + 1 then []
    else
      let (uval, text) := splitDigits 10000 write4 uval uval []
      let (uval, text) := splitDigits 100 write2 uval uval text
      signed (val < 0) (finishDigits uval text)

def fastLtoa (val : Int) (bufSize : Nat) : Bytes :=
  if bufSize < 2 then []
  else
    let uval := val.natAbs
    let len := countDigitsU64 uval + if val < 0 then 1 else 0
    if bufSize < len + 1 then []
    else
      let (uval, text) := splitDigits 100000000 write8 uval uval []
      let (uval, text) := splitDigits 10000 write4 uval uval text
      let (uval, text) := splitDigits 100 write2 uval uval text
      signed (val < 0) (finishDigits uval text)

def formatIntPart (val : Nat) : Bytes :=
  let (val, text) := splitDigits 100 write2 val val []
  finishDigits val text

/-- Six rounded digits without trailing zeros, behind the `pos` bytes of the integer part. -/
def formatFracPart (frac : Rat) (pos bufSize : Nat) : Bytes :=
  if 1 / 1000000000 < frac ∧ pos + 8 < bufSize then
    let digits := (frac * 1000000 + 1 / 2).floor.toNat
    let text := write2 (digits / 10000 % 100) ++ write2 (digits / 100 % 100) ++ write2 (digits % 100)
    let text := 46 :: (text.reverse.dropWhile (· == 48)).reverse
    if text = [46] then [] else text
  else []

/-- `fmt17g` is what `snprintf` makes of `%.17g`. -/
def fastDtoa (fmt17g : Rat → Bytes) (val : Dbl) (bufSize : Nat) : Bytes :=
  if bufSize < 2 then []
  else
    match val with
    | .nan | .inf _ => bytes "0"
    | .fin d =>
      if 1000000000000000 < d.val ∨ d.val < -1000000000000000 then
        let text := fmt17g d.val
        if 0 < text.length ∧ text.length < bufSize then text else []
      else
        let absVal := if d.signbit then -d.val else d.val
        let intPart := absVal.floor.toNat
        let len := countDigitsU64 intPart + if d.signbit then 1 else 0
        if bufSize < len + 1 then []
        else
          signed d.signbit (formatIntPart intPart) ++
            formatFracPart (absVal - intPart) len bufSize

/-! ## Integers -/

/-- The texts that `write` makes of the last digits below `base` end a decimal text. -/
def Splits (base : Nat) (write : Nat → Bytes) : Prop :=
  ∀ n, base ≤ n → Json.natText n = Json.natText (n / base) ++ write (n % base)

theorem splits_write2 : Splits 100 write2 := by
  intro n hn
  rw [Json.natText_ge (by omega), Json.natText_ge (by omega), List.append_assoc, Nat.div_div_eq_div_mul]
  simp only [write2, digitChar, List.cons_append, List.nil_append]
  rw [show n / 10 % 10 = n % 100 / 10 by omega, show n % 10 = n % 100 % 10 by omega]

/-- Twice as many digits at a time. -/
theorem Splits.square {base : Nat} {write : Nat → Bytes} (h : Splits base write) (hbase : 0 < base) :
    Splits (base * base) fun n => write (n / base) ++ write (n % base) := by
  intro n hn
  have hdiv : base ≤ n / base := (Nat.le_div_iff_mul_le hbase).mpr hn
  have hn' : base ≤ n := hdiv.trans (Nat.div_le_self ..)
  rw [h n hn', h _ hdiv, List.append_assoc, Nat.div_div_eq_div_mul]
  dsimp only
  rw [Nat.mod_mul_left_div_self, Nat.mod_mul_left_mod]

theorem splits_write4 : Splits 10000 write4 := splits_write2.square (by decide)

theorem splits_write8 : Splits 100000000 write8 := splits_write4.square (by decide)

theorem splitDigits_spec {base : Nat} {write : Nat → Bytes} (h : Splits base write) (hbase : 1 < base)
    {fuel val : Nat} (hfuel : val ≤ fuel) (text : Bytes) :
    (splitDigits base write fuel val text).1 < base ∧
      Json.natText (splitDigits base write fuel val text).1 ++
        (splitDigits base write fuel val text).2 = Json.natText val ++ text := by
  induction fuel generalizing val text with
  | zero => exact ⟨by simp only [splitDigits]; omega, rfl⟩
  | succ fuel ih =>
    rw [splitDigits]
    split
    · rename_i hge
      have hdiv : val / base < val := Nat.div_lt_self (by omega) hbase
      obtain ⟨hlt, htext⟩ := ih (show val / base ≤ fuel by omega) (write (val % base) ++ text)
      exact ⟨hlt, by rw [htext, ← List.append_assoc, ← h val hge]⟩
    · rename_i hlt
      exact ⟨by omega, rfl⟩

theorem finishDigits_eq {val : Nat} (h : val < 100) (text : Bytes) :
    finishDigits val text = Json.natText val ++ text := by
  rw [finishDigits]
  split
  · rename_i hlt
    rw [Json.natText_lt hlt]
    rfl
  · rename_i hge
    rw [Json.natText_ge hge, Json.natText_lt (by omega)]
    rfl

theorem signed_natText (val : Int) :
    signed (val < 0) (Json.natText val.natAbs) = Json.intText val := by
  simp [signed, Json.intText]

theorem ite_le {c : Prop} [Decidable c] {m n k : Nat} (hm : m ≤ k) (hn : n ≤ k) :
    (if c then m else n) ≤ k := by
  split
  · exact hm
  · exact hn

theorem countDigitsU32_le (val : Nat) : countDigitsU32 val ≤ 10 := by
  unfold countDigitsU32
  repeat refine ite_le (by decide) ?_
  exact Nat.le_refl 10

theorem countDigitsU64_le (val : Nat) : countDigitsU64 val ≤ 20 := by
  have h32 : countDigitsU32 val ≤ 20 := (countDigitsU32_le val).trans (by decide)
  unfold countDigitsU64
  refine ite_le h32 ?_
  repeat refine ite_le (by decide) ?_
  exact Nat.le_refl 20

theorem fastItoa_eq (val : Int) {bufSize : Nat} (h : 12 ≤ bufSize) :
    fastItoa val bufSize = Json.intText val := by
  have hdigits := countDigitsU32_le val.natAbs
  have hsign : (if val < 0 then 1 else 0) ≤ 1 := ite_le (Nat.le_refl 1) (Nat.zero_le 1)
  have h4 := splitDigits_spec splits_write4 (by decide) (Nat.le_refl val.natAbs) []
  rw [fastItoa, if_neg (by omega)]
  dsimp only
  rw [if_neg (by omega)]
  generalize splitDigits 10000 write4 _ _ _ = r at h4 ⊢
  have h2 := splitDigits_spec splits_write2 (by decide) (Nat.le_refl r.1) r.2
  rw [finishDigits_eq h2.1, h2.2, h4.2, List.append_nil, signed_natText]

theorem fastLtoa_eq (val : Int) {bufSize : Nat} (h : 22 ≤ bufSize) :
    fastLtoa val bufSize = Json.intText val := by
  have hdigits := countDigitsU64_le val.natAbs
  have hsign : (if val < 0 then 1 else 0) ≤ 1 := ite_le (Nat.le_refl 1) (Nat.zero_le 1)
  have h8 := splitDigits_spec splits_write8 (by decide) (Nat.le_refl val.natAbs) []
  rw [fastLtoa, if_neg (by omega)]
  dsimp only
  rw [if_neg (by omega)]
  generalize splitDigits 100000000 write8 _ _ _ = r at h8 ⊢
  have h4 := splitDigits_spec splits_write4 (by decide) (Nat.le_refl r.1) r.2
  generalize splitDigits 10000 write4 _ _ _ = r' at h4 ⊢
  have h2 := splitDigits_spec splits_write2 (by decide) (Nat.le_refl r'.1) r'.2
  rw [finishDigits_eq h2.1, h2.2, h4.2, h8.2, List.append_nil, signed_natText]

end ApiServer
