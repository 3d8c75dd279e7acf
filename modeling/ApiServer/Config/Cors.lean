import ApiServer.Config.Load

/-!
# The list of allowed origins

The variable names origins between commas. The server keeps the first 1023 bytes of it and at
most 64 entries. The entries in front of the last comma that is kept are entries of the variable.
The text behind that comma may have lost its end, and is then an origin nobody configured.
-/

namespace ApiServer
open Bytes

/-- The variable `CORS_ALLOWED_ORIGINS`; one that is not set has no entries. -/
def corsValue (environ : Environ) : Bytes := (environ (bytes "CORS_ALLOWED_ORIGINS")).getD []

/-- The origins a value names: what stands between commas, trimmed, if anything. -/
def corsEntries (value : Bytes) : List Bytes := value.fields 44 isSpace

/-- An origin is allowed if the variable names it, and only then. A value that does not fit need
not be honoured in full. -/
structure AllowsEntries (environ : Environ) : Prop where
  only : ∀ origin, configIsOriginAllowed (applyInitialConfigVars environ {}) origin = true →
    origin ∈ corsEntries (corsValue environ)
  all : (corsValue environ).length < maxConfigStr → (corsEntries (corsValue environ)).length ≤ 64 →
    ∀ origin ∈ corsEntries (corsValue environ),
      configIsOriginAllowed (applyInitialConfigVars environ {}) origin = true

/-! ## What the parser keeps -/

theorem fields_of_strtokR_none {s : Bytes} {delim : UInt8} {p : UInt8 → Bool}
    (h : strtokR delim s = none) : s.fields delim p = [] := by
  rw [strtokR] at h
  split at h
  · next hs => rw [← List.fields_dropWhile, hs, List.fields_nil]
  · cases h

theorem fields_of_strtokR {s token rest : Bytes} {delim : UInt8} {p : UInt8 → Bool}
    (h : strtokR delim s = some (token, rest)) :
    s.fields delim p =
      (if token.strip p = [] then [] else [token.strip p]) ++ rest.fields delim p := by
  rw [strtokR] at h
  split at h
  · cases h
  simp only [Option.some.injEq, Prod.mk.injEq] at h
  obtain ⟨htoken, hrest⟩ := h
  rw [← List.fields_dropWhile]
  generalize s.dropWhile (· == delim) = t at htoken hrest
  have hnot : delim ∉ token := by
    rw [← htoken]
    intro hmem
    simpa using List.mem_takeWhile_imp hmem
  have hsplit := List.takeWhile_append_dropWhile (p := (· != delim)) (l := t)
  rw [htoken] at hsplit
  -- The scan ended at a delimiter or at the end of the text.
  rcases List.dropWhile_cases (· != delim) t with ht | ⟨c, u, ht, hc⟩
  · rw [ht] at hsplit hrest
    rw [← hsplit, ← hrest, List.append_nil, List.fields_of_notMem p hnot, List.drop_nil,
      List.fields_nil, List.append_nil]
  · have hcdelim : c = delim := by simpa using hc
    rw [ht, hcdelim] at hsplit
    rw [ht] at hrest
    rw [← hsplit, ← hrest, List.fields_append_cons, List.fields_of_notMem p hnot,
      List.drop_one, List.tail_cons]

theorem parseTokens_eq {saveptr : Bytes} {ptrs : List Bytes} (h : ptrs.length ≤ 64) :
    parseTokens saveptr ptrs = (ptrs ++ corsEntries saveptr).take 64 := by
  fun_induction parseTokens saveptr ptrs with
  | case1 saveptr ptrs hnone =>
    rw [corsEntries, fields_of_strtokR_none hnone, List.append_nil, List.take_of_length_le h]
  | case2 saveptr ptrs token rest hsome hlt trimmed ih =>
    have hfields := fields_of_strtokR (p := isSpace) hsome
    have htrim : trimmed = token.strip isSpace := trimWhitespace_eq token
    rw [← htrim] at hfields
    rw [corsEntries, hfields]
    by_cases hempty : trimmed = []
    · rw [dif_neg (not_not.mpr hempty)] at ih
      rw [if_neg (not_not.mpr hempty), if_pos hempty, List.nil_append]
      exact ih h
    · rw [dif_pos hempty] at ih
      rw [if_pos hempty, if_neg hempty, ← List.append_assoc]
      exact ih (by rw [List.length_append, List.length_singleton]; omega)
  | case3 saveptr ptrs token rest hsome hge =>
    rw [List.take_append_of_le_length (by omega), List.take_of_length_le h]

theorem parseCorsOrigins_allowedOrigins {cfg : Config} (h : cfg.allowedOrigins = []) :
    (parseCorsOrigins cfg).allowedOrigins = (corsEntries cfg.allowedOrigin.text).take 64 := by
  rw [parseCorsOrigins]
  split
  · next hempty => rw [hempty, h, corsEntries, List.fields_nil, List.take_nil]
  · change parseTokens (CBuf.strlcpy maxConfigStr cfg.allowedOrigin.text).text _ = _
    rw [CBuf.strlcpy_self, h, parseTokens_eq (by simp), List.nil_append]

theorem loadEnvString_cors {environ : Environ} (h0 : 0 ∉ corsValue environ)
    (dest : CBuf maxConfigStr) :
    (loadEnvString environ (bytes "CORS_ALLOWED_ORIGINS") dest true).text =
      (corsValue environ).take (maxConfigStr - 1) := by
  rw [loadEnvString]
  rw [corsValue] at h0 ⊢
  cases hvalue : environ (bytes "CORS_ALLOWED_ORIGINS") with
  | none => rfl
  | some val =>
    rw [hvalue] at h0
    exact congrArg (List.take _) (cstr_eq_self h0)

/-- The origins the server holds: up to 64 entries of what is kept of the variable. -/
theorem allowedOrigins_eq {environ : Environ} (h0 : 0 ∉ corsValue environ) :
    (applyInitialConfigVars environ {}).allowedOrigins =
      (corsEntries ((corsValue environ).take (maxConfigStr - 1))).take 64 := by
  rw [applyInitialConfigVars, parseCorsOrigins_allowedOrigins rfl, loadEnvString_cors h0]

theorem configIsOriginAllowed_iff {cfg : Config} {origin : Bytes} :
    configIsOriginAllowed cfg origin = true ↔ origin ∈ cfg.allowedOrigins := by
  simp [configIsOriginAllowed]

/-! ## The entry that is cut -/

/-- What is kept of the value up to its last comma: whole entries. -/
def wholeEntries (value : Bytes) : Bytes :=
  (value.take (maxConfigStr - 1)).rdropWhile (· != 44)

/-- What is kept of the value behind that comma. -/
def lastEntry (value : Bytes) : Bytes :=
  (value.take (maxConfigStr - 1)).rtakeWhile (· != 44)

theorem wholeEntries_append_lastEntry (value : Bytes) :
    wholeEntries value ++ lastEntry value = value.take (maxConfigStr - 1) :=
  List.rdropWhile_append_rtakeWhile

theorem corsEntries_append_whole (value t : Bytes) :
    corsEntries (wholeEntries value ++ t) = corsEntries (wholeEntries value) ++ corsEntries t := by
  by_cases hwhole : wholeEntries value = []
  · rw [hwhole]
    simp [corsEntries]
  · have hlast := List.rdropWhile_last_not (· != 44) (value.take (maxConfigStr - 1)) hwhole
    have hcomma : (wholeEntries value).getLast hwhole = 44 := by
      simpa [wholeEntries] using hlast
    have hsplit := List.dropLast_append_getLast hwhole
    rw [hcomma] at hsplit
    rw [← hsplit, corsEntries, corsEntries, List.append_assoc, List.singleton_append,
      List.fields_append_cons, List.fields_append_cons, List.fields_nil, List.append_nil]
    rfl

theorem corsEntries_lastEntry (value : Bytes) :
    corsEntries (lastEntry value) =
      if (lastEntry value).strip isSpace = [] then [] else [(lastEntry value).strip isSpace] := by
  apply List.fields_of_notMem
  intro hmem
  simpa using List.mem_rtakeWhile_imp hmem

theorem corsEntries_take (value : Bytes) :
    corsEntries (value.take (maxConfigStr - 1)) =
      corsEntries (wholeEntries value) ++ corsEntries (lastEntry value) := by
  rw [← wholeEntries_append_lastEntry, corsEntries_append_whole]

theorem corsEntries_whole_subset (value : Bytes) :
    corsEntries (wholeEntries value) ⊆ corsEntries value := by
  have hsplit := List.take_append_drop (maxConfigStr - 1) value
  rw [← wholeEntries_append_lastEntry, List.append_assoc] at hsplit
  intro e he
  rw [← hsplit, corsEntries_append_whole]
  exact List.mem_append_left _ he

/-- The condition under which the cut does no harm: the last entry that is kept is blank, or an
entry of the whole value, or one for which there is no room. -/
def CutHarmless (value : Bytes) : Prop :=
  (lastEntry value).strip isSpace = [] ∨ (lastEntry value).strip isSpace ∈ corsEntries value ∨
    64 ≤ (corsEntries (wholeEntries value)).length

/-- What fits is not cut. -/
theorem cutHarmless_of_length_lt {value : Bytes} (h : value.length < maxConfigStr) :
    CutHarmless value := by
  by_cases hblank : (lastEntry value).strip isSpace = []
  · exact .inl hblank
  · refine .inr (.inl ?_)
    have htake : value.take (maxConfigStr - 1) = value := List.take_of_length_le (by omega)
    rw [← htake, corsEntries_take, corsEntries_lastEntry, htake, if_neg hblank]
    exact List.mem_append_right _ (List.mem_singleton_self _)

theorem kept_subset_iff (value : Bytes) :
    (corsEntries (value.take (maxConfigStr - 1))).take 64 ⊆ corsEntries value ↔
      CutHarmless value := by
  have hwhole := corsEntries_whole_subset value
  rw [corsEntries_take, corsEntries_lastEntry]
  constructor
  · intro h
    by_cases hblank : (lastEntry value).strip isSpace = []
    · exact .inl hblank
    by_cases hroom : 64 ≤ (corsEntries (wholeEntries value)).length
    · exact .inr (.inr hroom)
    refine .inr (.inl (h ?_))
    rw [if_neg hblank, List.take_of_length_le
      (by rw [List.length_append, List.length_singleton]; omega)]
    exact List.mem_append_right _ (List.mem_singleton_self _)
  · rintro (hblank | hentry | hroom) origin horigin
    · rw [if_pos hblank, List.append_nil] at horigin
      exact hwhole (List.mem_of_mem_take horigin)
    · rcases List.mem_append.mp (List.mem_of_mem_take horigin) with hmem | hmem
      · exact hwhole hmem
      · split at hmem
        · exact absurd hmem List.not_mem_nil
        · rwa [List.mem_singleton.mp hmem]
    · rw [List.take_append_of_le_length hroom] at horigin
      exact hwhole (List.mem_of_mem_take horigin)

/-- The origins that are allowed are the entries of the variable exactly when the cut of its
value does no harm, which is so for every value that fits. -/
theorem allowsEntries_iff (environ : Environ) (h0 : 0 ∉ corsValue environ) :
    (AllowsEntries environ ↔ CutHarmless (corsValue environ)) ∧
      ((corsValue environ).length < maxConfigStr → AllowsEntries environ) := by
  have hiff : AllowsEntries environ ↔ CutHarmless (corsValue environ) := by
    rw [← kept_subset_iff, ← allowedOrigins_eq h0]
    constructor
    · intro h origin horigin
      exact h.only origin (configIsOriginAllowed_iff.mpr horigin)
    · intro h
      refine ⟨fun origin horigin => h (configIsOriginAllowed_iff.mp horigin), ?_⟩
      intro hlen hcount origin horigin
      rw [configIsOriginAllowed_iff, allowedOrigins_eq h0,
        List.take_of_length_le (by omega : (corsValue environ).length ≤ maxConfigStr - 1),
        List.take_of_length_le hcount]
      exact horigin
  exact ⟨hiff, fun hlen => hiff.mpr (cutHarmless_of_length_lt hlen)⟩

/-- An environment in which only the origins are set. -/
def corsEnviron (value : Bytes) : Environ :=
  fun key => if key = bytes "CORS_ALLOWED_ORIGINS" then some value else none

theorem allowsEntries_two :
    AllowsEntries (corsEnviron (bytes "https://a.example , https://b.example")) :=
  (allowsEntries_iff (corsEnviron (bytes "https://a.example , https://b.example"))
    (by decide)).2 (by decide)

/-- A name whose end falls behind the 1023 bytes: the server allows another host. -/
theorem cut_origin_allowed :
    let environ := corsEnviron (List.replicate 1003 32 ++ bytes "https://api.bank.com.internal")
    0 ∉ corsValue environ ∧
      corsEntries (corsValue environ) = [bytes "https://api.bank.com.internal"] ∧
      configIsOriginAllowed (applyInitialConfigVars environ {}) (bytes "https://api.bank.com") =
        true ∧
      ¬AllowsEntries environ := by
  intro environ
  have h0 : 0 ∉ corsValue environ := by decide +kernel
  have hentries : corsEntries (corsValue environ) = [bytes "https://api.bank.com.internal"] := by
    decide +kernel
  have hallowed : configIsOriginAllowed (applyInitialConfigVars environ {})
      (bytes "https://api.bank.com") = true := by
    rw [configIsOriginAllowed_iff, allowedOrigins_eq h0]
    decide +kernel
  refine ⟨h0, hentries, hallowed, fun h => ?_⟩
  have hmem := h.only _ hallowed
  rw [hentries] at hmem
  exact absurd hmem (by decide)

end ApiServer
