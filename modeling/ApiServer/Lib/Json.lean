import ApiServer.Lib.Bytes

/-!
# JSON values and their texts

`Json.parse` reads a whole JSON text, byte by byte and without any check of the encoding of the
bytes from `0x80` on. A number without fraction and exponent is read as the integer it denotes,
any other number keeps its literal. Members of an object are kept in the order of the text,
repeated keys included, and a lookup finds the last one.
-/

inductive Json where
  | null
  | bool (b : Bool)
  | int (n : Int)
  | double (literal : Bytes)
  | string (s : Bytes)
  | array (elems : List Json)
  | object (members : List (Bytes × Json))
  deriving Inhabited

namespace Json
open Bytes

/-! ## The parser -/

def isWs (c : UInt8) : Bool := c == 32 || c == 9 || c == 10 || c == 13

def skipWs (s : Bytes) : Bytes := s.dropWhile isWs

/-- Consume one given byte. -/
def expect (c : UInt8) : Bytes → Option Bytes
  | [] => none
  | x :: s => if x = c then some s else none

def hexVal (c : UInt8) : Option Nat :=
  if 48 ≤ c ∧ c ≤ 57 then some (c.toNat - 48)
  else if 97 ≤ c ∧ c ≤ 102 then some (c.toNat - 87)
  else if 65 ≤ c ∧ c ≤ 70 then some (c.toNat - 55)
  else none

/-- Four hexadecimal digits. -/
def hex4 : Bytes → Option (Nat × Bytes)
  | a :: b :: c :: d :: s => do
    let a ← hexVal a
    let b ← hexVal b
    let c ← hexVal c
    let d ← hexVal d
    some (((a * 16 + b) * 16 + c) * 16 + d, s)
  | _ => none

/-- The UTF-8 encoding of a code point. -/
def utf8 (u : Nat) : Bytes :=
  if u < 0x80 then [.ofNat u]
  else if u < 0x800 then [.ofNat (0xC0 + u / 64), .ofNat (0x80 + u % 64)]
  else if u < 0x10000 then
    [.ofNat (0xE0 + u / 4096), .ofNat (0x80 + u / 64 % 64), .ofNat (0x80 + u % 64)]
  else [.ofNat (0xF0 + u / 262144), .ofNat (0x80 + u / 4096 % 64),
    .ofNat (0x80 + u / 64 % 64), .ofNat (0x80 + u % 64)]

/-- The byte a two-character escape stands for. -/
def simpleEscape (e : UInt8) : Option UInt8 :=
  if e = 34 ∨ e = 92 ∨ e = 47 then some e
  else if e = 98 then some 8
  else if e = 102 then some 12
  else if e = 110 then some 10
  else if e = 114 then some 13
  else if e = 116 then some 9
  else none

/-- What follows `\u`: one code unit, or a surrogate pair. A lone surrogate is refused. -/
def unicodeEscape (s : Bytes) : Option (Bytes × Bytes) := do
  let (u, s) ← hex4 s
  if 0xD800 ≤ u ∧ u < 0xDC00 then
    let s ← expect 92 s
    let s ← expect 117 s
    let (l, s) ← hex4 s
    if 0xDC00 ≤ l ∧ l < 0xE000 then
      some (utf8 (0x10000 + (u - 0xD800) * 0x400 + (l - 0xDC00)), s)
    else none
  else if 0xDC00 ≤ u ∧ u < 0xE000 then none
  else some (utf8 u, s)

/-- One character of a string: the bytes it denotes and what follows. -/
def strChar : Bytes → Option (Bytes × Bytes)
  | [] => none
  | c :: s =>
    if c = 92 then
      match s with
      | [] => none
      | e :: s => if e = 117 then unicodeEscape s else (simpleEscape e).map fun b => ([b], s)
    else if c < 32 ∨ c = 34 then none
    else some ([c], s)

/-- The content of a string literal, from behind its opening quote. -/
def strBody : Nat → Bytes → Option (Bytes × Bytes)
  | 0, _ => none
  | n + 1, s =>
    match expect 34 s with
    | some s => some ([], s)
    | none => do
      let (b, s) ← strChar s
      let (t, s) ← strBody n s
      some (b ++ t, s)

def number (s : Bytes) : Option (Json × Bytes) := do
  let (neg, t) := match expect 45 s with
    | some t => (true, t)
    | none => (false, s)
  let ds := t.takeWhile isDigit
  let t := t.dropWhile isDigit
  if ds = [] ∨ (1 < ds.length ∧ ds.head? = some 48) then none
  else
    let frac ← match expect 46 t with
      | some u => if u.takeWhile isDigit = [] then none else some (u.dropWhile isDigit)
      | none => some t
    let rest ← match (expect 101 frac).orElse fun _ => expect 69 frac with
      | some u =>
        let u := ((expect 43 u).orElse fun _ => expect 45 u).getD u
        if u.takeWhile isDigit = [] then none else some (u.dropWhile isDigit)
      | none => some frac
    if rest.length = t.length then
      some (.int (if neg then -(digitsVal ds : Int) else digitsVal ds), rest)
    else some (.double (s.take (s.length - rest.length)), rest)

def keyword (lit : Bytes) (v : Json) (s : Bytes) : Option (Json × Bytes) :=
  if lit.isPrefixOf s then some (v, s.drop lit.length) else none

/-- The members of an object from the first key on, with the closing brace. -/
def members (value : Bytes → Option (Json × Bytes)) :
    Nat → Bytes → Option (List (Bytes × Json) × Bytes)
  | 0, _ => none
  | n + 1, s => do
    let s ← expect 34 (skipWs s)
    let (key, s) ← strBody (s.length + 1) s
    let s ← expect 58 (skipWs s)
    let (v, s) ← value s
    let s := skipWs s
    match expect 125 s with
    | some s => some ([(key, v)], s)
    | none => do
      let s ← expect 44 s
      let (ms, s) ← members value n s
      some ((key, v) :: ms, s)

/-- The elements of an array from the first one on, with the closing bracket. -/
def elements (value : Bytes → Option (Json × Bytes)) : Nat → Bytes → Option (List Json × Bytes)
  | 0, _ => none
  | n + 1, s => do
    let (v, s) ← value s
    let s := skipWs s
    match expect 93 s with
    | some s => some ([v], s)
    | none => do
      let s ← expect 44 s
      let (vs, s) ← elements value n s
      some (v :: vs, s)

/-- A value nested at most `n` deep, with leading blanks. -/
def value : Nat → Bytes → Option (Json × Bytes)
  | 0, _ => none
  | n + 1, s =>
    match skipWs s with
    | [] => none
    | c :: s =>
      if c = 123 then
        match expect 125 (skipWs s) with
        | some s => some (.object [], s)
        | none => (members (value n) s.length s).map fun p => (.object p.1, p.2)
      else if c = 91 then
        match expect 93 (skipWs s) with
        | some s => some (.array [], s)
        | none => (elements (value n) s.length s).map fun p => (.array p.1, p.2)
      else if c = 34 then (strBody (s.length + 1) s).map fun p => (.string p.1, p.2)
      else if c = 110 then keyword (bytes "null") .null (c :: s)
      else if c = 116 then keyword (bytes "true") (.bool true) (c :: s)
      else if c = 102 then keyword (bytes "false") (.bool false) (c :: s)
      else number (c :: s)

/-- A whole text: one value and blanks. -/
def parse (s : Bytes) : Option Json := do
  let (v, s) ← value (s.length + 1) s
  if skipWs s = [] then some v else none

def isObject : Json → Bool
  | .object _ => true
  | _ => false

/-- The member last written under `key`. -/
def lookup (key : Bytes) (ms : List (Bytes × Json)) : Option Json :=
  (ms.reverse.find? (·.1 == key)).map (·.2)

end Json
