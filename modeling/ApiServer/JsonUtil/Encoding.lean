import ApiServer.JsonUtil
import ApiServer.Lib.Memory

/-!
# JSON string encoding in the caller's buffer (`lib/json_util.c`)

`Raw.jsonEncodeString` writes where the code writes. It leaves what `jsonEncodeString` returns and
a NUL behind it, so all that is known of the text is known of the buffer. `JSON_ENCODE_BUFSIZE`
counts six bytes for each byte of the source and the NUL, but the loop wants eight free bytes
before it takes one: a buffer of the advertised size may lose the end of the source.
-/

namespace ApiServer
open Bytes Json

namespace Raw

/-- The loop over the source; `j` is the next free index of `dest`. -/
def encodeLoop (destSize : Nat) : Bytes → Nat → Mem → Nat × Mem
  | [], j, dest => (j, dest)
  | c :: src, j, dest =>
    if c ≠ 0 ∧ j + 7 < destSize then
      encodeLoop destSize src (j + (encodeByte c).length) (dest.storeAll j (encodeByte c))
    else (j, dest)

def jsonEncodeString (src : Bytes) (dest : Mem) (destSize : Nat) : Mem :=
  if destSize = 0 then dest
  else
    let (j, dest) := encodeLoop destSize src 0 dest
    dest.store j 0

end Raw

/-- The bytes written are those of the text. -/
theorem wrote_encodeLoop {destSize : Nat} {m dest : Mem} {text : Bytes} (src : Bytes)
    (h : m.Wrote 0 text dest) :
    (Raw.encodeLoop destSize src text.length dest).1 = (encodeLoop destSize src text).length ∧
      m.Wrote 0 (encodeLoop destSize src text) (Raw.encodeLoop destSize src text.length dest).2 := by
  induction src generalizing dest text with
  | nil => exact ⟨rfl, h⟩
  | cons c src ih =>
    rw [Raw.encodeLoop, encodeLoop]
    by_cases hroom : c ≠ 0 ∧ text.length + 7 < destSize
    · have hnext : m.Wrote 0 (text ++ encodeByte c) (dest.storeAll text.length (encodeByte c)) :=
        h.then Mem.wrote_storeAll (Int.zero_add _).symm
      rw [if_pos hroom, if_pos hroom, ← List.length_append]
      exact ih hnext
    · rw [if_neg hroom, if_neg hroom]
      exact ⟨rfl, h⟩

theorem wrote_jsonEncodeString (src : Bytes) (dest : Mem) {destSize : Nat} (h : 0 < destSize) :
    dest.Wrote 0 (jsonEncodeString src destSize ++ [0])
      (Raw.jsonEncodeString src dest destSize) := by
  obtain ⟨hj, hwrote⟩ := @wrote_encodeLoop destSize dest dest [] src Mem.wrote_nil
  rw [Raw.jsonEncodeString, if_neg (by omega)]
  rw [List.length_nil] at hj hwrote
  dsimp only
  rw [hj]
  exact hwrote.then Mem.wrote_store (Int.zero_add _).symm

/-- What `json_encode_string` leaves in a buffer, whatever the buffer held: a C string inside the
buffer that is the content of a JSON string for `p`. -/
def EncodesTo (src : Bytes) (destSize : Nat) (p : Bytes) : Prop :=
  ∀ dest : Mem, ∃ text : Bytes,
    (∀ k ∈ (Raw.jsonEncodeString src dest destSize).touched,
      k ∈ dest.touched ∨ 0 ≤ k ∧ k < destSize) ∧
    text.length < destSize ∧
    (Raw.jsonEncodeString src dest destSize).load 0 (text.length + 1) = text ++ [0] ∧
    (∀ c ∈ text, ¬c < 0x20) ∧ strBody (text.length + 1) (text ++ [34]) = some (p, [])

/-- The encoding is sound in every buffer and complete in one of the advertised size. -/
structure EncodesSoundly (src : Bytes) (destSize : Nat) : Prop where
  sound : ∃ p, EncodesTo src destSize p ∧ p <+: src
  grows : ∀ destSize' p p', destSize ≤ destSize' → EncodesTo src destSize p →
    EncodesTo src destSize' p' → p <+: p'
  complete : jsonEncodeBufsize src.length ≤ destSize → EncodesTo src destSize src

theorem encodeByte_printable (c : UInt8) : ∀ d ∈ encodeByte c, ¬d < 0x20 := by
  -- the elements of the list are checked, not every `d` of 256 for every `c`
  have hall : ∀ c : UInt8, (encodeByte c).all (0x20 ≤ ·) = true := forall_byte (by decide +kernel)
  intro d hd
  exact UInt8.not_lt.mpr (of_decide_eq_true (List.all_eq_true.mp (hall c) d hd))

theorem escape_printable (s : Bytes) : ∀ d ∈ escape s, ¬d < 0x20 := by
  intro d hd
  obtain ⟨c, -, hc⟩ := List.mem_flatMap.mp hd
  exact encodeByte_printable c d hc

theorem encodesTo_of_eq {src p : Bytes} {destSize : Nat} (h0 : 0 ∉ src) (h : 0 < destSize)
    (heq : jsonEncodeString src destSize = escape p) : EncodesTo src destSize p := by
  intro dest
  have hwrote := wrote_jsonEncodeString src dest h
  have hlen := jsonEncodeString_length h0 destSize
  rw [heq] at hwrote hlen
  have hlt : (escape p).length < destSize := by omega
  refine ⟨escape p, fun k hk => ?_, hlt, ?_, escape_printable p,
    strBody_escape p [] (Nat.lt_succ_self _)⟩
  · refine ((hwrote.touched k).mp hk).imp_right fun hk => ?_
    rw [List.length_append, List.length_singleton] at hk
    omega
  · have := hwrote.load_eq
    rwa [List.length_append] at this

theorem zero_notMem_of_printable {s : Bytes} (h : ∀ c ∈ s, ¬c < 0x20) : 0 ∉ s :=
  fun h0 => h 0 h0 (by decide)

/-- Two C strings at the same place are the same. -/
theorem cstring_unique {m : Mem} {i : Int} {s t : Bytes} (hs : 0 ∉ s) (ht : 0 ∉ t)
    (h : m.load i (s.length + 1) = s ++ [0]) (h' : m.load i (t.length + 1) = t ++ [0]) : s = t := by
  induction s generalizing i t with
  | nil =>
    cases t with
    | nil => rfl
    | cons b t =>
      simp only [List.nil_append, List.length_cons, Mem.load, List.cons_append,
        List.cons.injEq] at h h'
      exact absurd (List.mem_cons.mpr (.inl (h.1.symm.trans h'.1))) ht
  | cons a s ih =>
    cases t with
    | nil =>
      simp only [List.nil_append, List.length_cons, Mem.load, List.cons_append,
        List.cons.injEq] at h h'
      exact absurd (List.mem_cons.mpr (.inl (h'.1.symm.trans h.1))) hs
    | cons b t =>
      simp only [List.length_cons, Mem.load, List.cons_append, List.cons.injEq] at h h'
      rw [← h.1, ← h'.1, ih (List.not_mem_of_not_mem_cons hs) (List.not_mem_of_not_mem_cons ht)
        h.2 h'.2]

theorem eq_of_encodesTo {src p : Bytes} {destSize : Nat} (h0 : 0 ∉ src)
    (hp : EncodesTo src destSize p) (h : 0 < destSize) :
    jsonEncodeString src destSize = escape p ∧ p <+: src := by
  obtain ⟨q, hq, heq, -⟩ := jsonEncodeString_spec h0 destSize
  obtain ⟨text, -, -, htext, hprint, hbody⟩ := hp ⟨fun _ => 0, []⟩
  obtain ⟨text', -, -, htext', hprint', hbody'⟩ := encodesTo_of_eq h0 h heq ⟨fun _ => 0, []⟩
  obtain rfl : text = text' := cstring_unique (zero_notMem_of_printable hprint)
    (zero_notMem_of_printable hprint') htext htext'
  obtain ⟨rfl, -⟩ := Prod.mk.inj (Option.some.inj (hbody.symm.trans hbody'))
  exact ⟨heq, hq⟩

/-- The advertised size is one byte short of what the loop asks for where each byte of the source
but the last takes six. -/
theorem encodesSoundly_iff (src : Bytes) (h0 : 0 ∉ src) (destSize : Nat) (h : 1 ≤ destSize) :
    EncodesSoundly src destSize ↔
      destSize < jsonEncodeBufsize src.length ∨ EncodeFits src destSize := by
  obtain ⟨p, hp, heq, hfit, -⟩ := jsonEncodeString_spec h0 destSize
  constructor
  · rintro ⟨-, -, hcomplete⟩
    rw [← Nat.not_le]
    refine Decidable.not_or_of_imp fun hsize => ?_
    have hsrc := (eq_of_encodesTo h0 (hcomplete hsize) h).1
    exact hfit.mp (escape_injective (heq.symm.trans hsrc))
  · intro hcase
    refine ⟨⟨p, encodesTo_of_eq h0 h heq, hp⟩, fun destSize' q q' hle hq hq' => ?_, fun hsize => ?_⟩
    · obtain ⟨heq, hpart⟩ := eq_of_encodesTo h0 hq h
      obtain ⟨heq', hpart'⟩ := eq_of_encodesTo h0 hq' (by omega)
      exact jsonEncodeString_mono h0 hle hpart hpart' heq heq'
    · have hsrc := hfit.mpr (hcase.resolve_left (by omega))
      exact encodesTo_of_eq h0 h (hsrc ▸ heq)

/-- Two plain bytes in a buffer of the advertised size. -/
theorem encodesSoundly_ab : EncodesSoundly (bytes "ab") (jsonEncodeBufsize 2) :=
  (encodesSoundly_iff (bytes "ab") (by decide) (jsonEncodeBufsize 2) (by decide)).mpr
    (.inr (by decide))

/-- One byte in a buffer of the advertised size: nothing is written but the NUL. -/
theorem not_encodesSoundly_a : ¬EncodesSoundly (bytes "a") (jsonEncodeBufsize 1) := by
  rintro ⟨-, -, hcomplete⟩
  have hempty := (eq_of_encodesTo (by decide) (hcomplete (Nat.le_refl _)) (by decide)).1
  exact absurd hempty (by decide)

end ApiServer
