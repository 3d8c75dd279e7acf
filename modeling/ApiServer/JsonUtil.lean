import ApiServer.Lib.JsonText

/-!
# JSON string encoding (`lib/json_util.c`)

`jsonEncodeString` copies a C string into a buffer of `destSize` bytes, escaping it, and stops
early when fewer than eight bytes are left. What it writes is the escape of a prefix of the source
(`jsonEncodeString_spec`), all of it exactly when the last byte still finds room.
-/

namespace ApiServer
open Bytes Json

def hexDigit (d : UInt8) : UInt8 := (bytes "0123456789abcdef").getD d.toNat 0

/-- What the `switch` over one source byte writes. -/
def encodeByte (c : UInt8) : Bytes :=
  if c = 34 then [92, 34]
  else if c = 92 then [92, 92]
  else if c = 10 then [92, 110]
  else if c = 13 then [92, 114]
  else if c = 9 then [92, 116]
  else if c = 8 then [92, 98]
  else if c = 12 then [92, 102]
  else if 32 ≤ c then [c]
  else [92, 117, 48, 48, hexDigit (c >>> 4), hexDigit (c &&& 0x0F)]

/-- The loop, with the bytes written so far; its test leaves seven bytes and the NUL free. -/
def encodeLoop (destSize : Nat) : Bytes → Bytes → Bytes
  | [], dest => dest
  | c :: src, dest =>
    if c ≠ 0 ∧ dest.length + 7 < destSize then encodeLoop destSize src (dest ++ encodeByte c)
    else dest

/-- The C string `json_encode_string` leaves in a buffer of `destSize` bytes. -/
def jsonEncodeString (src : Bytes) (destSize : Nat) : Bytes := encodeLoop destSize src []

/-- `JSON_ENCODE_BUFSIZE`. -/
def jsonEncodeBufsize (srcMax : Nat) : Nat := srcMax * 6 + 1

/-- The unbounded encoding. -/
def escape (s : Bytes) : Bytes := s.flatMap encodeByte

@[simp] theorem escape_nil : escape [] = [] := rfl

theorem escape_cons (c : UInt8) (s : Bytes) : escape (c :: s) = encodeByte c ++ escape s := rfl

theorem escape_append (s t : Bytes) : escape (s ++ t) = escape s ++ escape t :=
  List.flatMap_append

theorem length_encodeByte :
    ∀ c : UInt8, 1 ≤ (encodeByte c).length ∧ (encodeByte c).length ≤ 6 :=
  forall_byte (by decide +kernel)

theorem encodeByte_plain : ∀ c : UInt8, c ≠ 34 ∧ c ≠ 92 ∧ 0x20 ≤ c → encodeByte c = [c] :=
  forall_byte (by decide +kernel)

theorem zero_notMem_encodeByte : ∀ c : UInt8, c ≠ 0 → 0 ∉ encodeByte c :=
  forall_byte (by decide +kernel)

theorem zero_notMem_escape {s : Bytes} (h : 0 ∉ s) : 0 ∉ escape s := by
  rw [escape, List.mem_flatMap]
  rintro ⟨c, hc, h0⟩
  exact zero_notMem_encodeByte c (fun e => h (e ▸ hc)) h0

theorem newline_notMem_escape (s : Bytes) : 10 ∉ escape s := by
  have hbyte : ∀ c : UInt8, 10 ∉ encodeByte c := forall_byte (by decide +kernel)
  rw [escape, List.mem_flatMap]
  rintro ⟨c, -, h⟩
  exact hbyte c h

theorem length_escape_le (s : Bytes) : (escape s).length ≤ 6 * s.length := by
  induction s with
  | nil => exact Nat.zero_le _
  | cons c s ih =>
    have := (length_encodeByte c).2
    rw [escape_cons, List.length_append, List.length_cons]
    omega

theorem escape_plain (h : Plain s) : escape s = s := by
  induction s with
  | nil => rfl
  | cons c s ih =>
    obtain ⟨⟨hlow, hquote, hslash⟩, hs⟩ := List.forall_mem_cons.mp h
    rw [escape_cons, ih hs, encodeByte_plain c ⟨hquote, hslash, UInt8.not_lt.mp hlow⟩]
    rfl

/-! ## Decoding -/

private theorem strChar_hex {c : UInt8} (h : c < 32) (rest : Bytes) :
    strChar ([92, 117, 48, 48, hexDigit (c >>> 4), hexDigit (c &&& 0x0F)] ++ rest) =
      some ([c], rest) := by
  have hdigits : ∀ c : UInt8, hexVal (hexDigit (c >>> 4)) = some (c.toNat / 16) ∧
      hexVal (hexDigit (c &&& 0x0F)) = some (c.toNat % 16) := forall_byte (by decide +kernel)
  have hn : c.toNat < 32 := h
  obtain ⟨h1, h2⟩ := hdigits c
  have h0 : hexVal 48 = some 0 := by decide
  have hval : c.toNat / 16 * 16 + c.toNat % 16 = c.toNat := by omega
  have hutf : utf8 c.toNat = [c] := by simp [utf8, show c.toNat < 128 by omega]
  simp [strChar, unicodeEscape, hex4, h0, h1, h2, hval, hutf, show ¬0xD800 ≤ c.toNat by omega,
    show ¬0xDC00 ≤ c.toNat by omega]

theorem strChar_encodeByte (c : UInt8) (rest : Bytes) :
    strChar (encodeByte c ++ rest) = some ([c], rest) := by
  unfold encodeByte
  split
  · subst c; rfl
  split
  · subst c; rfl
  split
  · subst c; rfl
  split
  · subst c; rfl
  split
  · subst c; rfl
  split
  · subst c; rfl
  split
  · subst c; rfl
  split
  · exact strChar_plain (by simpa using ‹32 ≤ c›) ‹_› ‹_› rest
  · exact strChar_hex (by simpa using ‹¬32 ≤ c›) rest

/-- The encoding is string content that decodes to the source. -/
theorem strContent_escape (s : Bytes) : StrContent (escape s) s := by
  induction s with
  | nil => exact .nil
  | cons c s ih => exact .cons (b := [c]) (strChar_encodeByte c) ih

theorem strBody_escape (s rest : Bytes) {n : Nat} (hn : (escape s).length < n) :
    strBody n (escape s ++ 34 :: rest) = some (s, rest) :=
  strBody_content (strContent_escape s) hn rest

/-- Different strings have different encodings. -/
theorem escape_injective (h : escape s = escape t) : s = t := by
  have hs := strBody_escape s [] (Nat.lt_succ_self _)
  rw [h, strBody_escape t [] (Nat.lt_succ_self _)] at hs
  cases hs
  rfl

/-! ## The bounded encoding -/

/-- The last byte of the source still finds room in the buffer. -/
def EncodeFits (src : Bytes) (destSize : Nat) : Prop :=
  src = [] ∨ (escape src.dropLast).length + 7 < destSize

instance : Decidable (EncodeFits src destSize) := inferInstanceAs (Decidable (_ ∨ _))

/-- The loop ends at the NUL of the source. -/
theorem encodeLoop_cstr (destSize : Nat) (src dest : Bytes) :
    encodeLoop destSize src dest = encodeLoop destSize (cstr src) dest := by
  induction src generalizing dest with
  | nil => rfl
  | cons c src ih =>
    by_cases hc : c = 0
    · rw [encodeLoop, if_neg fun h => h.1 hc]
      simp [cstr, hc, encodeLoop]
    · have hcstr : cstr (c :: src) = c :: cstr src := by simp [cstr, hc]
      rw [hcstr, encodeLoop, encodeLoop, ih]

private theorem encodeLoop_spec {destSize : Nat} {src : Bytes} (h : 0 ∉ src) (dest : Bytes) :
    ∃ p q, src = p ++ q ∧ encodeLoop destSize src dest = dest ++ escape p ∧
      (q ≠ [] → destSize ≤ dest.length + (escape p).length + 7) ∧
      (p ≠ [] → dest.length + (escape p.dropLast).length + 7 < destSize) := by
  induction src generalizing dest with
  | nil => exact ⟨[], [], rfl, by simp [encodeLoop], by simp, by simp⟩
  | cons c src ih =>
    simp only [List.mem_cons, not_or] at h
    by_cases hroom : dest.length + 7 < destSize
    · obtain ⟨p, q, rfl, heq, hq, hp⟩ := ih h.2 (dest ++ encodeByte c)
      rw [List.length_append] at hq hp
      refine ⟨c :: p, q, rfl, ?_, fun hne => ?_, fun _ => ?_⟩
      · rw [encodeLoop, if_pos ⟨Ne.symm h.1, hroom⟩, heq, escape_cons, List.append_assoc]
      · rw [escape_cons, List.length_append]
        have := hq hne
        omega
      · cases p with
        | nil => exact hroom
        | cons x p =>
          have hne : x :: p ≠ [] := List.cons_ne_nil x p
          rw [List.dropLast_cons_of_ne_nil hne, escape_cons, List.length_append]
          have := hp hne
          omega
    · refine ⟨[], c :: src, rfl, ?_, fun _ => ?_, by simp⟩
      · rw [encodeLoop, if_neg fun h => hroom h.2]; simp
      · simp; omega

/-- `json_encode_string` writes the escape of a prefix of its source, all of it exactly when the
last byte finds room. -/
theorem jsonEncodeString_spec {src : Bytes} (h : 0 ∉ src) (destSize : Nat) :
    ∃ p, p <+: src ∧ jsonEncodeString src destSize = escape p ∧
      (p = src ↔ EncodeFits src destSize) ∧ (p ≠ [] → (escape p.dropLast).length + 7 < destSize) := by
  obtain ⟨p, q, rfl, heq, hq, hp⟩ := @encodeLoop_spec destSize src h []
  simp only [List.length_nil, Nat.zero_add] at hq hp
  refine ⟨p, List.prefix_append p q, heq, ⟨fun e => ?_, fun hfit => ?_⟩, hp⟩
  · rw [← e]
    by_cases hpn : p = []
    · exact .inl hpn
    · exact .inr (hp hpn)
  · by_contra hne
    have hqn : q ≠ [] := fun e => hne (by rw [e, List.append_nil])
    rcases hfit with hnil | hfit
    · exact hqn (List.append_eq_nil_iff.mp hnil).2
    · rw [List.dropLast_append_of_ne_nil hqn, escape_append, List.length_append] at hfit
      have := hq hqn
      omega

/-- A larger buffer takes as much of the source, or more. -/
theorem jsonEncodeString_mono {src p p' : Bytes} (h : 0 ∉ src) {destSize destSize' : Nat}
    (hle : destSize ≤ destSize') (hp : p <+: src) (hp' : p' <+: src)
    (heq : jsonEncodeString src destSize = escape p)
    (heq' : jsonEncodeString src destSize' = escape p') : p <+: p' := by
  obtain ⟨r, q, -, hr, -, hroom⟩ := @encodeLoop_spec destSize src h []
  obtain ⟨r', q', hsrc', hr', hfull, -⟩ := @encodeLoop_spec destSize' src h []
  obtain rfl : p = r := escape_injective (heq.symm.trans hr)
  obtain rfl : p' = r' := escape_injective (heq'.symm.trans hr')
  simp only [List.length_nil, Nat.zero_add] at hroom hfull
  rcases List.prefix_or_prefix_of_prefix hp hp' with hpart | ⟨t, rfl⟩
  · exact hpart
  by_cases ht : t = []
  · simp [ht]
  -- the smaller buffer found room for a byte where the larger one had none
  have hq' : q' ≠ [] := by
    rintro rfl
    have hlen := hp.length_le
    rw [hsrc', List.append_nil, List.length_append] at hlen
    exact ht (List.eq_nil_of_length_eq_zero (by omega))
  have hlast := hroom (List.append_ne_nil_of_right_ne_nil p' ht)
  rw [List.dropLast_append_of_ne_nil ht, escape_append, List.length_append] at hlast
  have := hfull hq'
  omega

theorem jsonEncodeString_length {src : Bytes} (h : 0 ∉ src) (destSize : Nat) :
    (jsonEncodeString src destSize).length ≤ destSize - 2 := by
  obtain ⟨p, -, heq, -, hp⟩ := jsonEncodeString_spec h destSize
  by_cases hpn : p = []
  · rw [heq, hpn, escape_nil]
    exact Nat.zero_le _
  · have hlast := List.dropLast_append_getLast hpn
    have hlen := (length_encodeByte (p.getLast hpn)).2
    rw [heq, ← hlast, escape_append, List.length_append, escape_cons, escape_nil, List.append_nil]
    have := hp hpn
    omega

end ApiServer
