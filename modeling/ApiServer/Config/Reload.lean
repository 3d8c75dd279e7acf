import ApiServer.Config.EnvFile
import Mathlib.Data.List.ReduceOption

/-!
# The configuration over the life of the process (`lib/config.c`)

The first call of `config_reload` loads the configuration, or ends the process if a required variable
is missing. Each SIGHUP calls it again. Whatever is in the files by then, only the access log follows
them, and no secret comes back into the environment.
-/

namespace ApiServer
open Bytes

/-- The calls of `config_reload` in a process, each with the files it finds. -/
def configRun (environ : Environ) (loads : List EnvFiles) : Except (List Bytes) ConfigState :=
  loads.foldlM configReload { environ }

/-- The value that the files give to a variable, if they do. -/
def EnvFiles.value (files : EnvFiles) (key : Bytes) : Option Bytes :=
  (locateAndLoadEnv files false { environ := fun _ => none }).2.environ key

/-- The value of a variable when the server starts: the files come before the environment. -/
def startValue (environ : Environ) (start : EnvFiles) (key : Bytes) : Option Bytes :=
  (start.value key).or (environ key)

/-- The ranges of the numbers. -/
structure Config.Limited (cfg : Config) : Prop where
  numThreads : cfg.numThreads ≤ 1024
  maxQueueSize : cfg.maxQueueSize ≤ 1000000
  fastPoolPercentage : cfg.fastPoolPercentage ≤ 100
  maxPayloadSize : cfg.maxPayloadSize ≤ 104857600
  serverPort : 1 ≤ cfg.serverPort ∧ cfg.serverPort ≤ 65535
  jwtTimeoutSeconds : 1 ≤ cfg.jwtTimeoutSeconds ∧ cfg.jwtTimeoutSeconds ≤ 2592000

/-- A process that was started with the variables `found`, behind these further calls. -/
structure Settled (found : Environ) (reloads : List EnvFiles) (s : ConfigState) : Prop where
  loaded : s.isFirstLoad = false
  /-- Of all the texts for the access log the last one counts. -/
  config : s.config =
    { copyConfigVars found {} with
      accessLog := parseBooleanEnv (found (bytes "ACCESS_LOG") ::
        reloads.map (·.value (bytes "ACCESS_LOG"))).reduceOption.getLast? true }
  limited : s.config.Limited
  scrubbed : ∀ key ∈ scrubbedVars, s.environ key = none
  others : ∀ key ∉ scrubbedVars, s.environ key = found key

/-! ## Files -/

/-- The lines that are read do not depend on what is done with them. -/
theorem exists_lines_loadLines (file : Bytes) :
    ∃ lines : List Bytes, ∀ hotReload s,
      loadLines hotReload file s = lines.foldl (loadLine hotReload) s := by
  induction hlen : file.length using Nat.strong_induction_on generalizing file with
  | _ n ih =>
    cases hread : fgets maxConfigStr file with
    | none =>
      refine ⟨[], fun hotReload s => ?_⟩
      rw [loadLines]
      split
      · rfl
      · next hsome => cases hread.symm.trans hsome
    | some r =>
      obtain ⟨line, rest⟩ := r
      obtain ⟨lines, hlines⟩ := ih rest.length (hlen ▸ fgets_length (by decide) hread) rest rfl
      refine ⟨cstr line :: lines, fun hotReload s => ?_⟩
      rw [loadLines]
      split
      · next hnone => cases hread.symm.trans hnone
      · next hsome =>
        cases hread.symm.trans hsome
        exact hlines ..

theorem exists_lines (files : EnvFiles) :
    ∃ lines : List Bytes, ∀ hotReload s,
      (locateAndLoadEnv files hotReload s).2 = lines.foldl (loadLine hotReload) s := by
  obtain ⟨_ | beside, here⟩ := files
  · cases here with
    | none => exact ⟨[], fun _ _ => rfl⟩
    | some here => exact exists_lines_loadLines here
  · exact exists_lines_loadLines beside

theorem defineLine_eq_or (environ : Environ) (line key : Bytes) :
    defineLine environ line key = (defineLine (fun _ => none) line key).or (environ key) := by
  by_cases h : ∃ val, LineDefines line key val
  · obtain ⟨val, h⟩ := h
    rw [applies_defineLine.defined h, applies_defineLine.defined h, Option.some_or]
  · rw [applies_defineLine.others (not_exists.mp h), applies_defineLine.others (not_exists.mp h),
      Option.none_or]

theorem foldl_defineLine (environ : Environ) (lines : List Bytes) (key : Bytes) :
    lines.foldl defineLine environ key =
      (lines.foldl defineLine (fun _ => none) key).or (environ key) := by
  induction lines generalizing environ with
  | nil => rfl
  | cons line lines ih =>
    rw [List.foldl_cons, List.foldl_cons, ih, ih (defineLine (fun _ => none) line),
      defineLine_eq_or environ, Option.or_assoc]

theorem locateAndLoadEnv_start (files : EnvFiles) (s : ConfigState) :
    (locateAndLoadEnv files false s).2 = { s with environ := startValue s.environ files } := by
  obtain ⟨lines, hlines⟩ := exists_lines files
  have hvalue : startValue s.environ files = lines.foldl defineLine s.environ := by
    funext key
    rw [startValue, EnvFiles.value, hlines, foldl_loadLine_start, foldl_defineLine s.environ]
  rw [hlines, foldl_loadLine_start, hvalue]

/-! ## The access log -/

def ConfigState.setAccessLog (s : ConfigState) (value : Option Bytes) : ConfigState :=
  { s with config := { s.config with accessLog := parseBooleanEnv value s.config.accessLog } }

theorem parseBooleanEnv_or (a b : Option Bytes) (d : Bool) :
    parseBooleanEnv (a.or b) d = parseBooleanEnv a (parseBooleanEnv b d) := by
  cases a <;> rfl

theorem loadLine_hotReload (s : ConfigState) (line : Bytes) :
    loadLine true s line = s.setAccessLog (defineLine (fun _ => none) line (bytes "ACCESS_LOG")) := by
  rw [defineLine, loadLine, loadLine]
  rcases keyAndValue line with _ | ⟨key, val⟩
  · rfl
  · by_cases hkey : key = bytes "ACCESS_LOG"
    · subst hkey
      rfl
    · -- a line for another variable, or for none
      have hother : (if key ≠ [] then setenv key val fun _ => none else fun _ => none)
          (bytes "ACCESS_LOG") = none := by
        split
        · exact if_neg (Ne.symm hkey)
        · rfl
      simp only [if_true, if_neg hkey, Bool.false_eq_true, if_false]
      split <;> simp_all [ConfigState.setAccessLog, parseBooleanEnv]

theorem foldl_loadLine_hotReload (s : ConfigState) (lines : List Bytes) :
    lines.foldl (loadLine true) s =
      s.setAccessLog (lines.foldl defineLine (fun _ => none) (bytes "ACCESS_LOG")) := by
  induction lines generalizing s with
  | nil => rfl
  | cons line lines ih =>
    rw [List.foldl_cons, List.foldl_cons, ih, loadLine_hotReload, foldl_defineLine (defineLine _ _)]
    simp only [ConfigState.setAccessLog, parseBooleanEnv_or]

/-- Of all that is configured, a hot reload changes the access log alone. -/
theorem locateAndLoadEnv_hotReload (files : EnvFiles) (s : ConfigState) :
    (locateAndLoadEnv files true s).2 = s.setAccessLog (files.value (bytes "ACCESS_LOG")) := by
  obtain ⟨lines, hlines⟩ := exists_lines files
  rw [EnvFiles.value, hlines, hlines, foldl_loadLine_hotReload, foldl_loadLine_start]

theorem getLast?_reduceOption_concat (l : List (Option α)) (a : Option α) :
    (l ++ [a]).reduceOption.getLast? = a.or l.reduceOption.getLast? := by
  rw [List.reduceOption_append, List.reduceOption_singleton]
  cases a <;> simp

/-! ## Numbers -/

theorem safeStrtoulEnv_le (envVal : Option Bytes) {defaultVal maxVal : Nat}
    (h : defaultVal ≤ maxVal) : safeStrtoulEnv envVal defaultVal maxVal ≤ maxVal := by
  unfold safeStrtoulEnv
  split
  · exact h
  · exact h
  · split
    · exact h
    · split <;> omega

theorem safeStrtolEnv_mem (envVal : Option Bytes) {defaultVal minVal maxVal : Int}
    (hmin : minVal ≤ defaultVal) (hmax : defaultVal ≤ maxVal) :
    minVal ≤ safeStrtolEnv envVal defaultVal minVal maxVal ∧
      safeStrtolEnv envVal defaultVal minVal maxVal ≤ maxVal := by
  unfold safeStrtolEnv
  split
  · exact ⟨hmin, hmax⟩
  · exact ⟨hmin, hmax⟩
  · split
    · exact ⟨hmin, hmax⟩
    · split
      · omega
      · split <;> omega

theorem parseCorsOrigins_eq (cfg : Config) :
    ∃ allowedOrigins, parseCorsOrigins cfg = { cfg with allowedOrigins } := by
  rw [parseCorsOrigins]
  split
  · exact ⟨_, rfl⟩
  · exact ⟨_, rfl⟩

theorem limited_parseCorsOrigins {cfg : Config} (H : cfg.Limited) :
    (parseCorsOrigins cfg).Limited := by
  obtain ⟨allowedOrigins, hcors⟩ := parseCorsOrigins_eq cfg
  rw [hcors]
  exact { H with }

theorem limited_copyConfigVars (environ : Environ) : (copyConfigVars environ {}).Limited := by
  refine limited_parseCorsOrigins
    { numThreads := safeStrtoulEnv_le _ (by decide)
      maxQueueSize := safeStrtoulEnv_le _ (by decide)
      fastPoolPercentage := safeStrtoulEnv_le _ (by decide)
      maxPayloadSize := safeStrtoulEnv_le _ (by decide)
      serverPort := safeStrtolEnv_mem _ (by decide) (by decide)
      jwtTimeoutSeconds := ?_ }
  dsimp only
  split
  · exact safeStrtolEnv_mem _ (by decide) (by decide)
  · decide

/-! ## Calls -/

theorem foldl_scrubEnvVar (environ : Environ) (names : List Bytes) (key : Bytes) :
    names.foldl scrubEnvVar environ key = if key ∈ names then none else environ key := by
  induction names generalizing environ with
  | nil => rfl
  | cons name names ih =>
    rw [List.foldl_cons, ih, scrubEnvVar]
    by_cases hkey : key = name <;> simp [hkey]

theorem accessLog_copyConfigVars (environ : Environ) (cfg : Config) :
    (copyConfigVars environ cfg).accessLog =
      parseBooleanEnv (environ (bytes "ACCESS_LOG")) true := by
  obtain ⟨allowedOrigins, hcors⟩ := parseCorsOrigins_eq _
  exact congrArg Config.accessLog hcors

theorem missing_eq_nil {found : Environ} (h : ∀ key ∈ requiredVars, (found key).isSome) :
    requiredVars.filter (fun key => (found key).isNone) = [] := by
  refine List.filter_eq_nil_iff.mpr fun key hkey => ?_
  rw [← Option.not_isSome, h key hkey]
  decide

/-- The call at the start. -/
theorem settled_first (environ : Environ) (start : EnvFiles)
    (h : ∀ key ∈ requiredVars, (startValue environ start key).isSome) :
    ∃ s, configReload { environ } start = .ok s ∧ Settled (startValue environ start) [] s := by
  refine ⟨⟨scrubbedVars.foldl scrubEnvVar (startValue environ start),
    copyConfigVars (startValue environ start) {}, false⟩, ?_, ?_⟩
  · rw [configReload]
    simp only [locateAndLoadEnv_start, missing_eq_nil h]
    rfl
  · have hsingle := getLast?_reduceOption_concat [] (startValue environ start (bytes "ACCESS_LOG"))
    rw [List.nil_append, List.reduceOption_nil, List.getLast?_nil, Option.or_none] at hsingle
    refine ⟨rfl, ?_, limited_copyConfigVars _, fun key hkey => ?_, fun key hkey => ?_⟩
    · rw [List.map_nil, hsingle, ← accessLog_copyConfigVars _ {}]
    · exact (foldl_scrubEnvVar ..).trans (if_pos hkey)
    · exact (foldl_scrubEnvVar ..).trans (if_neg hkey)

/-- A call on SIGHUP. -/
theorem Settled.reload {found : Environ} {reloads : List EnvFiles} {s : ConfigState}
    (H : Settled found reloads s) (files : EnvFiles) :
    ∃ s', configReload s files = .ok s' ∧ Settled found (reloads ++ [files]) s' := by
  refine ⟨s.setAccessLog (files.value (bytes "ACCESS_LOG")), ?_, H.loaded, ?_, { H.limited with },
    H.scrubbed, H.others⟩
  · rw [configReload, H.loaded, ← locateAndLoadEnv_hotReload]
    rfl
  · rw [List.map_append, List.map_singleton, ← List.cons_append, getLast?_reduceOption_concat,
      parseBooleanEnv_or, ConfigState.setAccessLog, H.config]

/-! ## Runs -/

theorem Settled.run {found : Environ} {prior : List EnvFiles} {s : ConfigState}
    (H : Settled found prior s) (reloads : List EnvFiles) :
    ∃ s', reloads.foldlM configReload s = .ok s' ∧ Settled found (prior ++ reloads) s' := by
  induction reloads generalizing prior s with
  | nil => exact ⟨s, rfl, by rwa [List.append_nil]⟩
  | cons files reloads ih =>
    obtain ⟨s₁, hstep, H₁⟩ := H.reload files
    obtain ⟨s₂, hrun, H₂⟩ := ih H₁
    refine ⟨s₂, ?_, by rwa [List.append_cons]⟩
    rw [List.foldlM_cons, hstep]
    exact hrun

/-- The messages name what is missing. -/
theorem missingMsg_mem_abortMsgs (keys : List Bytes) (key : Bytes) :
    missingMsg key ∈ abortMsgs keys ↔ key ∈ keys := by
  have hinj : Function.Injective missingMsg := fun _ _ => List.append_cancel_left
  rw [abortMsgs, List.mem_append, List.mem_singleton, List.mem_map_of_injective hinj]
  exact or_iff_left fun h =>
    absurd (show some (77 : UInt8) = some 79 from congrArg List.head? h) (by decide)

/-- If the files and the environment give every required variable, the process runs with what they
gave it, and from then on only the access log changes. Otherwise it ends with a message for each
variable that is missing. -/
theorem config_of_run (environ : Environ) (start : EnvFiles) (reloads : List EnvFiles) :
    let found := startValue environ start
    ((∀ key ∈ requiredVars, (found key).isSome) →
      ∃ s, configRun environ (start :: reloads) = .ok s ∧ Settled found reloads s) ∧
    ((∃ key ∈ requiredVars, found key = none) →
      ∃ messages, configRun environ (start :: reloads) = .error messages ∧
        ∀ key ∈ requiredVars, missingMsg key ∈ messages ↔ found key = none) := by
  intro found
  constructor
  · intro h
    obtain ⟨s₁, hfirst, H⟩ := settled_first environ start h
    obtain ⟨s, hrun, H⟩ := H.run reloads
    refine ⟨s, ?_, H⟩
    rw [configRun, List.foldlM_cons, hfirst]
    exact hrun
  · rintro ⟨key, hkey, hnone⟩
    have hmissing : requiredVars.filter (fun key => (found key).isNone) ≠ [] :=
      List.ne_nil_of_mem (List.mem_filter.mpr ⟨hkey, by rw [hnone]; rfl⟩)
    have hfirst : configReload { environ } start =
        .error (abortMsgs (requiredVars.filter fun key => (found key).isNone)) := by
      rw [configReload]
      simp only [locateAndLoadEnv_start]
      exact if_pos hmissing
    refine ⟨abortMsgs (requiredVars.filter fun key => (found key).isNone), ?_, fun key hkey => ?_⟩
    · rw [configRun, List.foldlM_cons, hfirst]
      rfl
    · rw [missingMsg_mem_abortMsgs, List.mem_filter, Option.isNone_iff_eq_none]
      exact and_iff_right hkey

/-- A server that is started from its environment, and whose file then turns the access log off and
holds a new secret. -/
theorem config_of_run_logOff :
    let environ : Environ := fun key => if key ∈ requiredVars then some (bytes "60") else none
    let later : EnvFiles := { here := some (bytes "JWT_SECRET=new\nACCESS_LOG=off\n") }
    ∃ s, configRun environ [{}, later] = .ok s ∧ s.config.accessLog = false ∧
      s.config.jwtTimeoutSeconds = 60 ∧ s.environ (bytes "JWT_SECRET") = none := by
  intro environ later
  obtain ⟨s, hrun, H⟩ := (config_of_run environ {} [later]).1 (by decide)
  have hlog : later.value (bytes "ACCESS_LOG") = some (bytes "off") := by
    change (loadEnvFile (some (bytes "JWT_SECRET=new\nACCESS_LOG=off\n")) false _).2.environ _ = _
    rw [loadEnvFile_environ (by decide), foldl_linePieces (by decide)]
    decide
  refine ⟨s, hrun, ?_, ?_, H.scrubbed _ (by decide)⟩
  · rw [H.config, List.map_singleton, hlog]
    decide
  · rw [H.config]
    decide

end ApiServer
