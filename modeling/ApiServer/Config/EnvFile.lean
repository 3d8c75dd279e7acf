import ApiServer.Config.Load
import ApiServer.Lib.LastWrite

/-!
# The grammar of the environment file

A line defines at most one variable, and of the definitions of a variable the last one counts.
`load_env_file` reads pieces of at most 1023 bytes and takes each of them for a line. So it
follows the grammar exactly where the cuts of long lines change no definition that counts.
-/

namespace ApiServer
open Bytes

/-! ## The grammar -/

/-- A value without its opening quote and a closing one like it. -/
inductive Unquotes : Bytes → Bytes → Prop
  | plain : v.head? ≠ some 34 → v.head? ≠ some 39 → Unquotes v v
  | closed : q = 34 ∨ q = 39 → Unquotes (q :: (v ++ [q])) v
  | unclosed : q = 34 ∨ q = 39 → v.getLast? ≠ some q → Unquotes (q :: v) v

/-- The line is neither blank nor a comment, and defines the variable `key`. -/
def LineDefines (line key val : Bytes) : Prop :=
  ∃ before after, line = before ++ 61 :: after ∧ 61 ∉ before ∧
    key = before.strip isSpace ∧ key ≠ [] ∧ key.head? ≠ some 35 ∧
    Unquotes (after.strip isSpace) val

def fileLines (file : Bytes) : List Bytes := file.splitOn 10

/-- The file is loaded by its grammar, whatever the environment was. -/
def FollowsGrammar (file : Bytes) : Prop :=
  ∀ s, Assigns LineDefines (fileLines file) s.environ (loadEnvFile (some file) false s).2.environ

/-- The lines, cut where they do not fit the buffer. -/
def linePieces (file : Bytes) : List Bytes :=
  (fileLines file).flatMap (List.chunks (maxConfigStr - 1))

/-- The cuts change no definition that counts. -/
def CutsHarmless (file : Bytes) : Prop :=
  ∀ key val, LastDefines LineDefines (linePieces file) key val ↔
    LastDefines LineDefines (fileLines file) key val

/-! ## One line -/

theorem unquotes_unquote (v : Bytes) : Unquotes v (unquote v) := by
  match v with
  | [] => exact .plain nofun nofun
  | q :: v =>
    rw [unquote]
    split
    · next hq =>
      split
      · next hlast =>
        have hsplit := List.dropLast_append_getLast? q hlast.2
        nth_rewrite 1 [← hsplit]
        exact .closed hq
      · next hlast =>
        refine .unclosed hq fun h => hlast ⟨?_, h⟩
        rintro rfl
        exact nomatch h
    · next hq =>
      rw [not_or] at hq
      exact .plain (fun h => hq.1 (Option.some.inj h)) (fun h => hq.2 (Option.some.inj h))

theorem Unquotes.unquote_eq {v w : Bytes} (h : Unquotes v w) : unquote v = w := by
  cases h with
  | plain h1 h2 =>
    match v with
    | [] => rfl
    | q :: v =>
      have hq : ¬(q = 34 ∨ q = 39) := by
        rintro (rfl | rfl)
        · exact h1 rfl
        · exact h2 rfl
      rw [unquote, if_neg hq]
  | closed hq => rw [unquote, if_pos hq, if_pos (by simp), List.dropLast_concat]
  | unclosed hq hlast => rw [unquote, if_pos hq, if_neg fun h => hlast h.2]

theorem keyAndValue_of_notMem {line : Bytes} (h : 61 ∉ line) : keyAndValue line = none := by
  have hstrip : 61 ∉ trimWhitespace line := by
    rw [trimWhitespace_eq]
    exact fun hmem => h ((List.strip_sublist isSpace line).mem hmem)
  rw [keyAndValue, strchr_eq_none.mpr hstrip]
  exact ite_self none

theorem keyAndValue_append {before after : Bytes} (h : 61 ∉ before) :
    keyAndValue (before ++ 61 :: after) =
      if (before.strip isSpace).head? = some 35 then none
      else some (before.strip isSpace, unquote (after.strip isSpace)) := by
  have htrim : trimWhitespace (before ++ 61 :: after) =
      before.dropWhile isSpace ++ 61 :: after.rdropWhile isSpace := by
    rw [trimWhitespace_eq, List.strip_append_cons (by decide)]
  have hnot : 61 ∉ before.dropWhile isSpace := fun hmem => h ((List.dropWhile_sublist _).mem hmem)
  have hcomment : ((before.dropWhile isSpace ++ 61 :: after.rdropWhile isSpace).head? = some 35 ∨
      before.dropWhile isSpace ++ 61 :: after.rdropWhile isSpace = []) ↔
      (before.strip isSpace).head? = some 35 := by
    rw [List.head?_strip]
    cases before.dropWhile isSpace <;> simp
  have hdrop : (before.dropWhile isSpace ++ 61 :: after.rdropWhile isSpace).drop
      ((before.dropWhile isSpace).length + 1) = after.rdropWhile isSpace := by
    rw [← List.drop_drop, List.drop_left, List.drop_one, List.tail_cons]
  rw [keyAndValue, htrim]
  simp only [hcomment, strchr_append hnot, trimWhitespace_eq, List.take_left, hdrop,
    List.strip_dropWhile, List.strip_rdropWhile]

theorem keyAndValue_newline (line : Bytes) : keyAndValue (line ++ [10]) = keyAndValue line := by
  have htrim : trimWhitespace (line ++ [10]) = trimWhitespace line := by
    rw [trimWhitespace_eq, trimWhitespace_eq, List.strip_concat_pos (by decide)]
  rw [keyAndValue, htrim, keyAndValue]

/-- The program finds the definition of a line, if there is one. -/
theorem lineDefines_iff {line key val : Bytes} :
    LineDefines line key val ↔ keyAndValue line = some (key, val) ∧ key ≠ [] := by
  constructor
  · rintro ⟨before, after, rfl, hnot, rfl, hne, hcomment, hval⟩
    rw [keyAndValue_append hnot, if_neg hcomment, hval.unquote_eq]
    exact ⟨rfl, hne⟩
  · rintro ⟨h, hne⟩
    by_cases hmem : 61 ∈ line
    · obtain ⟨i, hi⟩ := Option.ne_none_iff_exists'.mp (mt strchr_eq_none.mp (not_not.mpr hmem))
      obtain ⟨hline, hnot⟩ := strchr_eq_some hi
      rw [hline, keyAndValue_append hnot, Option.ite_none_left_eq_some, Option.some.injEq,
        Prod.mk.injEq] at h
      obtain ⟨hcomment, rfl, rfl⟩ := h
      exact ⟨_, _, hline, hnot, rfl, hne, hcomment, unquotes_unquote _⟩
    · rw [keyAndValue_of_notMem hmem] at h
      exact nomatch h

/-- A line defines one variable, whatever its value contains. -/
theorem LineDefines.unique {line key val key' val' : Bytes} (h : LineDefines line key val)
    (h' : LineDefines line key' val') : key = key' ∧ val = val' := by
  have heq := (lineDefines_iff.mp h).1.symm.trans (lineDefines_iff.mp h').1
  simpa using heq

/-- A key as it can be written in front of the `=`. -/
structure IsKey (key : Bytes) : Prop where
  ne_nil : key ≠ []
  noEquals : 61 ∉ key
  noComment : key.head? ≠ some 35
  trimmed : key.strip isSpace = key

/-- Between quotes a value may be any text. -/
theorem lineDefines_quoted {key : Bytes} (h : IsKey key) (val : Bytes) :
    LineDefines (key ++ 61 :: 34 :: (val ++ [34])) key val := by
  have hstrip : (34 :: (val ++ [34])).strip isSpace = 34 :: (val ++ [34]) := by
    apply List.strip_eq_self
    · intro c hc
      rw [← Option.some.inj hc]
      decide
    · intro c hc
      rw [← List.cons_append, List.getLast?_concat] at hc
      rw [← Option.some.inj hc]
      decide
  refine ⟨key, _, rfl, h.noEquals, h.trimmed.symm, h.ne_nil, h.noComment, ?_⟩
  rw [hstrip]
  exact .closed (.inl rfl)

/-! ## The whole file -/

/-- What a line does to the environment. -/
def defineLine (environ : Environ) (line : Bytes) : Environ :=
  (loadLine false { environ } line).environ

theorem loadLine_start (s : ConfigState) (line : Bytes) :
    loadLine false s line = { s with environ := defineLine s.environ line } := by
  rw [defineLine, loadLine, loadLine]
  rcases keyAndValue line with _ | ⟨key, val⟩
  · rfl
  · by_cases hkey : key = [] <;> simp [hkey]

theorem foldl_loadLine_start (s : ConfigState) (lines : List Bytes) :
    lines.foldl (loadLine false) s = { s with environ := lines.foldl defineLine s.environ } := by
  induction lines generalizing s with
  | nil => rfl
  | cons line lines ih => rw [List.foldl_cons, List.foldl_cons, ih, loadLine_start]

theorem applies_defineLine : Applies LineDefines defineLine where
  defined := by
    intro environ line key val h
    obtain ⟨hline, hne⟩ := lineDefines_iff.mp h
    simp [defineLine, loadLine, hline, hne, setenv]
  others := by
    intro environ line key h
    rw [defineLine, loadLine]
    rcases hline : keyAndValue line with _ | ⟨key', val⟩
    · rfl
    · by_cases hne : key' = []
      · simp [hne]
      · have hkey : key ≠ key' := by
          rintro rfl
          exact h val (lineDefines_iff.mpr ⟨hline, hne⟩)
        simp [hne, setenv, hkey]

theorem loadLine_newline (s : ConfigState) (line : Bytes) :
    loadLine false s (line ++ [10]) = loadLine false s line := by
  rw [loadLine, loadLine, keyAndValue_newline]

theorem loadLine_nil (s : ConfigState) : loadLine false s [] = s := rfl

/-- A call of `fgets` ends with a newline, or with a full buffer or at the end of the file. -/
theorem fgets_cases {size : Nat} {file line rest : Bytes}
    (h : fgets size file = some (line, rest)) :
    (∃ l, file = l ++ 10 :: rest ∧ line = l ++ [10] ∧ 10 ∉ l ∧ l.length < size - 1) ∨
      (file = line ++ rest ∧ file ≠ [] ∧ 10 ∉ line ∧ line.length ≤ size - 1 ∧
        (line.length = size - 1 ∨ rest = [])) := by
  rw [fgets, Option.ite_none_left_eq_some, Option.some.injEq, Prod.mk.injEq] at h
  obtain ⟨hne, hline, hrest⟩ := h
  rw [lineSize] at hline hrest
  cases hnl : strchr (file.take (size - 1)) 10 with
  | some i =>
    simp only [hnl] at hline hrest
    obtain ⟨hsplit, hnot⟩ := strchr_eq_some hnl
    have hlen := congrArg List.length hsplit
    simp only [List.length_append, List.length_cons, List.length_take, List.length_drop] at hlen
    have hi : i < size - 1 := by omega
    have hl : (file.take i).length = i := by rw [List.length_take]; omega
    rw [List.take_take, Nat.min_eq_left hi.le] at hsplit hnot
    have hfile := List.take_append_drop (size - 1) file
    rw [hsplit, List.append_assoc, List.cons_append] at hfile
    generalize file.take i = l at hl hnot hfile
    generalize (file.take (size - 1)).drop (i + 1) ++ file.drop (size - 1) = rest' at hfile
    subst hl hfile
    rw [List.take_length_add_append, List.take_one, List.head?_cons] at hline
    rw [← List.drop_drop, List.drop_left, List.drop_one, List.tail_cons] at hrest
    exact .inl ⟨l, by rw [hrest], hline.symm, hnot, hi⟩
  | none =>
    simp only [hnl] at hline hrest
    rw [strchr_eq_none, hline] at hnl
    refine .inr ⟨by rw [← hline, ← hrest, List.take_append_drop], hne, hnl, ?_⟩
    rw [← hline, ← hrest, List.length_take, List.drop_eq_nil_iff]
    omega

theorem linePieces_newline {line : Bytes} (rest : Bytes) (h : 10 ∉ line) :
    linePieces (line ++ 10 :: rest) = line.chunks (maxConfigStr - 1) ++ linePieces rest := by
  rw [linePieces, fileLines, List.splitOn_append_cons, List.splitOn_eq_singleton h,
    List.flatMap_append, List.flatMap_singleton]
  rfl

theorem linePieces_full {line : Bytes} (rest : Bytes) (h : 10 ∉ line) (hne : line ++ rest ≠ [])
    (hlen : line.length ≤ maxConfigStr - 1) (hfull : line.length = maxConfigStr - 1 ∨ rest = []) :
    linePieces (line ++ rest) = line :: linePieces rest := by
  obtain ⟨r, rs, hrest, hall⟩ := List.splitOn_append_of_notMem h rest
  rw [linePieces, linePieces, fileLines, fileLines, hrest, hall, List.flatMap_cons,
    List.flatMap_cons, ← List.cons_append]
  congr 1
  rcases hfull with hfull | rfl
  · exact List.chunks_append (by decide) hfull
  · rw [List.splitOn_nil, List.cons.injEq] at hrest
    rw [List.append_nil] at hne
    rw [← hrest.1, List.append_nil, List.chunks_of_length_le hne hlen, List.chunks_nil]

/-- The program reads the lines and cuts those that do not fit. -/
theorem loadLines_eq {file : Bytes} (h0 : 0 ∉ file) (s : ConfigState) :
    loadLines false file s = (linePieces file).foldl (loadLine false) s := by
  fun_induction loadLines false file s with
  | case1 file s hnone =>
    have hnil : file = [] := by
      by_contra hne
      rw [fgets, if_neg hne] at hnone
      cases hnone
    rw [hnil, linePieces, fileLines, List.splitOn_nil, List.flatMap_singleton, List.chunks_nil,
      List.foldl_nil]
  | case2 file s line rest hsome ih =>
    rcases fgets_cases hsome with ⟨l, rfl, rfl, hnl, hlen⟩ | ⟨rfl, hne, hnl, hlen, hfull⟩
    · have h0l : 0 ∉ l ++ [10] := fun hmem => h0 (by grind)
      have h0rest : 0 ∉ rest := fun hmem => h0 (by grind)
      rw [ih h0rest, linePieces_newline rest hnl, List.foldl_append, cstr_eq_self h0l,
        loadLine_newline]
      by_cases hl : l = []
      · rw [hl, List.chunks_nil, loadLine_nil, List.foldl_nil]
      · rw [List.chunks_of_length_le hl hlen.le, List.foldl_cons, List.foldl_nil]
    · have h0line : 0 ∉ line := fun hmem => h0 (List.mem_append_left rest hmem)
      have h0rest : 0 ∉ rest := fun hmem => h0 (List.mem_append_right line hmem)
      rw [ih h0rest, linePieces_full rest hnl hne hlen hfull, List.foldl_cons,
        cstr_eq_self h0line]

theorem loadEnvFile_environ {file : Bytes} (h0 : 0 ∉ file) (s : ConfigState) :
    (loadEnvFile (some file) false s).2.environ = (linePieces file).foldl defineLine s.environ := by
  change (loadLines false file s).environ = _
  rw [loadLines_eq h0, foldl_loadLine_start]

/-- Lines that fit the buffer are not cut, and an empty one defines nothing. -/
theorem foldl_linePieces {file : Bytes} (h : ∀ line ∈ fileLines file, line.length < maxConfigStr)
    (environ : Environ) :
    (linePieces file).foldl defineLine environ = (fileLines file).foldl defineLine environ := by
  rw [linePieces]
  generalize fileLines file = ls at h
  induction ls generalizing environ with
  | nil => rfl
  | cons l ls ih =>
    have hl := h l List.mem_cons_self
    have hls := fun environ => ih environ fun line hline => h line (List.mem_cons_of_mem l hline)
    rw [List.flatMap_cons, List.foldl_append, List.foldl_cons, hls]
    by_cases hnil : l = []
    · rw [hnil, List.chunks_nil]
      rfl
    · rw [List.chunks_of_length_le hnil (by omega), List.foldl_cons, List.foldl_nil]

/-- The file is loaded by its grammar exactly where the cuts of long lines do no harm, as in a
file all of whose lines fit the buffer. A variable then has the text its last line puts between
quotes, whatever text that is. -/
theorem followsGrammar_iff (file : Bytes) (h0 : 0 ∉ file) :
    (FollowsGrammar file ↔ CutsHarmless file) ∧
      ((∀ line ∈ fileLines file, line.length < maxConfigStr) → FollowsGrammar file) ∧
      (FollowsGrammar file → ∀ before after key val, IsKey key →
        fileLines file = before ++ (key ++ 61 :: 34 :: (val ++ [34])) :: after →
        (∀ line ∈ after, ∀ val', ¬LineDefines line key val') →
        ∀ s, (loadEnvFile (some file) false s).2.environ key = some val) := by
  refine ⟨?_, ?_, ?_⟩
  · rw [CutsHarmless, ← applies_defineLine.assigns_iff]
    constructor
    · intro h environ
      have hload := h { environ }
      rwa [loadEnvFile_environ h0] at hload
    · intro h s
      rw [loadEnvFile_environ h0]
      exact h s.environ
  · intro hshort s
    rw [loadEnvFile_environ h0, foldl_linePieces hshort]
    exact applies_defineLine.assigns_foldl _ _
  · intro h before after key val hkey hlines hafter s
    exact (h s).defined key val ⟨before, _, after, hlines, lineDefines_quoted hkey val, hafter⟩

theorem followsGrammar_two_lines :
    FollowsGrammar (bytes "# main database\nDB_0 = \"Driver=x;Uid=y\"\nDB_0='z'\n") :=
  (followsGrammar_iff (bytes "# main database\nDB_0 = \"Driver=x;Uid=y\"\nDB_0='z'\n")
    (by decide)).2.1 (by decide)

/-- A line of 1026 bytes with a value of 1022. -/
def longLine : Bytes := bytes "KEY=" ++ List.replicate 1019 120 ++ bytes "A=b"

theorem lineDefines_longLine :
    LineDefines longLine (bytes "KEY") (List.replicate 1019 120 ++ bytes "A=b") :=
  lineDefines_iff.mpr ⟨by decide +kernel, by decide⟩

/-- The end of a value that fits its limit defines a variable of its own. -/
theorem longLine_defines_rest :
    0 ∉ longLine ∧ fileLines longLine = [longLine] ∧
      (∀ line ∈ fileLines longLine, ∀ key val, LineDefines line key val →
        key = bytes "KEY" ∧ val.length < maxConfigStr) ∧
      (∀ s, (loadEnvFile (some longLine) false s).2.environ (bytes "A") = some (bytes "b")) ∧
      ¬FollowsGrammar longLine := by
  have h0 : 0 ∉ longLine := by decide +kernel
  have hlines : fileLines longLine = [longLine] :=
    List.splitOn_eq_singleton (by decide +kernel)
  have honly : ∀ line ∈ fileLines longLine, ∀ key val, LineDefines line key val →
      key = bytes "KEY" ∧ val.length < maxConfigStr := by
    intro line hline key val hdef
    rw [hlines, List.mem_singleton] at hline
    subst hline
    obtain ⟨rfl, rfl⟩ := hdef.unique lineDefines_longLine
    exact ⟨rfl, by decide +kernel⟩
  have hpieces : linePieces longLine =
      [bytes "KEY=" ++ List.replicate 1019 120, bytes "A=b"] := by
    rw [linePieces, hlines, List.flatMap_singleton, longLine,
      List.chunks_append (by decide) (by decide +kernel),
      List.chunks_of_length_le (by decide) (by decide)]
  have hset : ∀ s, (loadEnvFile (some longLine) false s).2.environ (bytes "A") =
      some (bytes "b") := by
    intro s
    rw [loadEnvFile_environ h0, hpieces]
    exact applies_defineLine.foldl_defined
      ⟨[_], _, [], rfl, lineDefines_iff.mpr ⟨by decide, by decide⟩, nofun⟩ _
  refine ⟨h0, hlines, honly, hset, fun h => ?_⟩
  have hkept := (h { environ := fun _ => none }).others (bytes "A") ?_
  · rw [hset] at hkept
    exact nomatch hkept
  · rintro val ⟨before, line, after, hsplit, hdef, -⟩
    have hmem : line ∈ fileLines longLine := by rw [hsplit]; simp
    exact absurd (honly line hmem _ _ hdef).1 (by decide)

end ApiServer
