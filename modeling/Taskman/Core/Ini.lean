import Taskman.Text.Scan

/-!
# The INI format

Reader and escapes of the configuration file: a text is read line by line into the values of its
sections, lenient by design, later duplicates win.  The second half is about texts that are written
in this format: sections with a header, comments and entries.

* `parseIni` : the reader;
* `escapeIni`, `unescapeIni` : values in one line, and back (`unescapeIni_escapeIni`);
* `IniSection.Readable` : what a section must satisfy to come back;
* `parseIni_of_sections` : **a text of readable sections is read as their entries**.
-/

namespace Taskman

/-- Keys of the parsed file: section and key. -/
instance : Ord (Text × Text) := lexOrd

instance : Std.TransOrd (Text × Text) := Std.instTransOrdProd

/-- A parsed file. -/
abbrev Ini := OrdMap (Text × Text) Text

/-! ### Escapes -/

/-- `str::replace` of one character. -/
def replaceChar (c : Char) (r v : Text) : Text := v.flatMap fun d => if d = c then r else [d]

/-- Escape values that could be mistaken for comments or contain newlines. -/
def escapeIni (v : Text) : Text :=
  replaceChar ';' ['\\', ';'] (replaceChar '\n' ['\\', 'n'] (replaceChar '\\' ['\\', '\\'] v))

/-- A value as it was before it was written. -/
def unescapeIni : Text → Text
  | [] => []
  | [c] => [c]
  | c :: d :: t =>
    if c = '\\' then
      if d = 'n' then '\n' :: unescapeIni t
      else if d = ';' then ';' :: unescapeIni t
      else if d = '\\' then '\\' :: unescapeIni t
      else '\\' :: d :: unescapeIni t
    else c :: unescapeIni (d :: t)

/-! ### Reading -/

/-- What one line says. -/
inductive IniLine where
  /-- Blank, a comment, or malformed. -/
  | skip
  | header (name : Text)
  | entry (key val : Text)
  deriving DecidableEq

/-- Reader of one line. -/
def readLine (raw : Text) : IniLine :=
  let line := raw.trim
  if line = [] ∨ line.head? = some '#' ∨ line.head? = some ';' then .skip
  else
    match (line.stripPrefix ['[']).bind (Text.stripSuffix · [']']) with
    | some name => .header name.trim.toAsciiLowercase
    | none =>
      match line.splitOnce (· == '=') with
      | some (k, v) => .entry k.trim.toAsciiLowercase (unescapeIni v.trim)
      | none => .skip

/-- The loop of `parse_ini`: the current section and what was read. -/
def iniStep (st : Text × Ini) (raw : Text) : Text × Ini :=
  match readLine raw with
  | .skip => st
  | .header name => (name, st.2)
  | .entry key val =>
    if st.1 ≠ [] ∧ key ≠ [] then (st.1, st.2.insert (st.1, key) val) else st

/-- Parse INI text into `(section, key) -> value`. -/
def parseIni (text : Text) : Ini := (text.lines.foldl iniStep ([], ∅)).2

/-! ### Escaped values come back -/

/-- What `escape_ini` makes of one character. -/
def escapeChar (c : Char) : Text :=
  if c = '\\' then ['\\', '\\'] else if c = '\n' then ['\\', 'n'] else if c = ';' then ['\\', ';']
  else [c]

theorem escapeIni_eq_flatMap (v : Text) : escapeIni v = v.flatMap escapeChar := by
  unfold escapeIni replaceChar
  rw [List.flatMap_assoc, List.flatMap_assoc]
  refine congrArg (v.flatMap ·) ?_
  funext c
  unfold escapeChar
  by_cases hb : c = '\\'
  · subst hb
    rfl
  by_cases hn : c = '\n'
  · subst hn
    rfl
  simp [hb, hn]

@[simp]
theorem escapeIni_append (s t : Text) : escapeIni (s ++ t) = escapeIni s ++ escapeIni t := by
  simp only [escapeIni_eq_flatMap, List.flatMap_append]

/-- Nothing to escape: neither a backslash, nor a line feed, nor a semicolon. -/
def Plain (t : Text) : Prop := ∀ c ∈ t, c ≠ '\\' ∧ c ≠ '\n' ∧ c ≠ ';'

instance (t : Text) : Decidable (Plain t) := List.decidableBAll _ t

theorem escapeIni_of_plain {t : Text} (h : Plain t) : escapeIni t = t := by
  induction t with
  | nil => rfl
  | cons c t ih =>
    obtain ⟨hb, hn, hs⟩ := h c List.mem_cons_self
    have ht := ih fun d hd => h d (List.mem_cons_of_mem c hd)
    rw [escapeIni_eq_flatMap] at ht ⊢
    rw [List.flatMap_cons, ht, escapeChar, if_neg hb, if_neg hn, if_neg hs, List.singleton_append]

theorem unescapeIni_escapeChar_append (c : Char) (t : Text) :
    unescapeIni (escapeChar c ++ t) = c :: unescapeIni t := by
  unfold escapeChar
  split_ifs with hb hn hs
  · simp [unescapeIni, hb]
  · simp [unescapeIni, hn]
  · simp [unescapeIni, hs]
  · rcases t with _ | ⟨d, t⟩
    · simp [unescapeIni]
    · rw [List.singleton_append, unescapeIni, if_neg hb]

/-- **An escaped value is read back.** -/
@[simp]
theorem unescapeIni_escapeIni (v : Text) : unescapeIni (escapeIni v) = v := by
  rw [escapeIni_eq_flatMap]
  induction v with
  | nil => rfl
  | cons c v ih => rw [List.flatMap_cons, unescapeIni_escapeChar_append, ih]

theorem newline_notMem_escapeIni (v : Text) : '\n' ∉ escapeIni v := by
  rw [escapeIni_eq_flatMap, List.mem_flatMap]
  rintro ⟨c, -, hc⟩
  unfold escapeChar at hc
  split_ifs at hc with hb hn hs
  · revert hc
    decide
  · revert hc
    decide
  · revert hc
    decide
  · exact hn (List.mem_singleton.mp hc).symm

theorem escapeChar_ends {c : Char} (hc : Text.isWhitespace c = false) :
    Text.Trimmed (escapeChar c) := by
  refine Text.trimmed_of_forall ?_
  intro d hd
  unfold escapeChar at hd
  split_ifs at hd with hb hn hs
  · rcases List.mem_pair.mp hd with rfl | rfl <;> rfl
  · subst hn
    exact absurd hc (by decide)
  · rcases List.mem_pair.mp hd with rfl | rfl <;> rfl
  · rw [List.mem_singleton.mp hd]
    exact hc

theorem escapeChar_ne_nil (c : Char) : escapeChar c ≠ [] := by
  unfold escapeChar
  split_ifs <;> simp

theorem trimmed_escapeIni {v : Text} (h : Text.Trimmed v) : Text.Trimmed (escapeIni v) := by
  rw [escapeIni_eq_flatMap]
  constructor
  · intro c hc
    rcases v with _ | ⟨d, v⟩
    · cases hc
    · rw [List.flatMap_cons, List.head?_append_of_ne_nil _ (escapeChar_ne_nil d)] at hc
      exact (escapeChar_ends (h.head d rfl)).head c hc
  · intro c hc
    rcases List.eq_nil_or_concat v with rfl | ⟨v, d, rfl⟩
    · cases hc
    · rw [List.concat_eq_append, List.flatMap_append, List.flatMap_singleton,
        List.getLast?_append_of_ne_nil _ (escapeChar_ne_nil d)] at hc
      exact (escapeChar_ends (h.last d (by simp))).last c hc

/-! ### What the reader delivers -/

/-- Section names, as the reader delivers them. -/
structure IsName (n : Text) : Prop where
  trimmed : Text.Trimmed n
  lower : n.toAsciiLowercase = n
  oneLine : '\n' ∉ n

/-- Keys, as the reader delivers them. -/
structure IsKey (k : Text) : Prop extends IsName k where
  ne_nil : k ≠ []
  noEq : '=' ∉ k
  noComment : k.head? ≠ some '#' ∧ k.head? ≠ some ';'

theorem isName_iff {n : Text} :
    IsName n ↔ Text.Trimmed n ∧ n.toAsciiLowercase = n ∧ '\n' ∉ n :=
  ⟨fun h => ⟨h.trimmed, h.lower, h.oneLine⟩, fun h => ⟨h.1, h.2.1, h.2.2⟩⟩

theorem isKey_iff {k : Text} :
    IsKey k ↔ IsName k ∧ k ≠ [] ∧ '=' ∉ k ∧ k.head? ≠ some '#' ∧ k.head? ≠ some ';' :=
  ⟨fun h => ⟨h.toIsName, h.ne_nil, h.noEq, h.noComment⟩, fun h => ⟨h.1, h.2.1, h.2.2.1, h.2.2.2⟩⟩

instance (n : Text) : Decidable (IsName n) := decidable_of_iff' _ isName_iff

instance (k : Text) : Decidable (IsKey k) := decidable_of_iff' _ isKey_iff

theorem isName_of_trim {t : Text} (h : '\n' ∉ t) : IsName t.trim.toAsciiLowercase where
  trimmed := (Text.trimmed_trim t).toAsciiLowercase
  lower := Text.toAsciiLowercase_toAsciiLowercase _
  oneLine := by
    rw [Text.mem_toAsciiLowercase_iff (by decide)]
    exact fun hmem => h (Text.mem_of_mem_trim hmem)

theorem isName_of_readLine {raw n : Text} (hraw : '\n' ∉ raw) (h : readLine raw = .header n) :
    IsName n := by
  have hline : '\n' ∉ raw.trim := fun hmem => hraw (Text.mem_of_mem_trim hmem)
  unfold readLine at h
  dsimp only at h
  split_ifs at h
  split at h
  · rename_i name hname
    obtain ⟨inner, hpre, hsuf⟩ := Option.bind_eq_some_iff.mp hname
    rw [Text.stripPrefix_eq_some_iff] at hpre
    rw [Text.stripSuffix_eq_some_iff] at hsuf
    obtain rfl := IniLine.header.inj h
    refine isName_of_trim fun hmem => hline ?_
    rw [hpre, hsuf]
    simp [hmem]
  · split at h <;> cases h

theorem isKey_of_readLine {raw k v : Text} (hraw : '\n' ∉ raw) (h : readLine raw = .entry k v)
    (hk : k ≠ []) : IsKey k := by
  have hline : '\n' ∉ raw.trim := fun hmem => hraw (Text.mem_of_mem_trim hmem)
  unfold readLine at h
  dsimp only at h
  split_ifs at h with hskip
  split at h
  · cases h
  split at h
  · rename_i a b hsplit
    obtain ⟨c, hc, hab, ha⟩ := Text.splitOnce_eq_some_iff.mp hsplit
    obtain ⟨rfl, -⟩ := IniLine.entry.inj h
    have hsub : ∀ d ∈ a.trim, d ∈ raw.trim := by
      intro d hd
      rw [hab]
      exact List.mem_append_left _ (Text.mem_of_mem_trim hd)
    have hname : IsName a.trim.toAsciiLowercase :=
      isName_of_trim fun hmem => hline (by rw [hab]; exact List.mem_append_left _ hmem)
    -- The key begins the line, so it begins with a visible character, which is none of the marks.
    have hane : a ≠ [] := by
      rintro rfl
      exact hk rfl
    have hhead : a.trim.head? = raw.trim.head? := by
      have hah : a.head? = raw.trim.head? := by
        rw [hab, List.head?_append_of_ne_nil _ hane]
      rw [← hah]
      exact Text.head?_trim fun d hd => (Text.trimmed_trim raw).head d (hah ▸ hd)
    refine ⟨hname, hk, ?_, ?_, ?_⟩
    · rw [Text.mem_toAsciiLowercase_iff (by decide)]
      intro hmem
      have := ha '=' (Text.mem_of_mem_trim hmem)
      simp at this
    · rw [Ne, Text.head?_toAsciiLowercase_eq_iff (by decide), hhead]
      tauto
    · rw [Ne, Text.head?_toAsciiLowercase_eq_iff (by decide), hhead]
      tauto
  · cases h

/-- All that the loop of the reader has met are names and keys. -/
def ReadSoFar (st : Text × Ini) : Prop :=
  IsName st.1 ∧ ∀ (p : Text × Text) (v : Text), st.2[p]? = some v → IsName p.1 ∧ IsKey p.2

theorem ReadSoFar.iniStep {st : Text × Ini} (h : ReadSoFar st) {raw : Text} (hraw : '\n' ∉ raw) :
    ReadSoFar (iniStep st raw) := by
  unfold Taskman.iniStep
  cases hl : readLine raw with
  | skip => exact h
  | header n => exact ⟨isName_of_readLine hraw hl, h.2⟩
  | entry k v =>
    dsimp only
    split_ifs with hne
    · refine ⟨h.1, ?_⟩
      intro p w hp
      rw [OrdMap.getElem?_insert] at hp
      split_ifs at hp with heq
      · rw [← heq]
        exact ⟨h.1, isKey_of_readLine hraw hl hne.2⟩
      · exact h.2 p w hp
    · exact h

/-- **Every section and every key of a parsed file is as the reader delivers them.** -/
theorem isKey_of_parseIni {text : Text} {p : Text × Text} {v : Text}
    (h : (parseIni text)[p]? = some v) : IsName p.1 ∧ IsKey p.2 := by
  have hloop : ∀ (ls : List Text) (st : Text × Ini), (∀ l ∈ ls, '\n' ∉ l) → ReadSoFar st →
      ReadSoFar (ls.foldl iniStep st) := by
    intro ls
    induction ls with
    | nil => exact fun st _ hst => hst
    | cons l ls ih =>
      intro st hls hst
      exact ih _ (fun m hm => hls m (List.mem_cons_of_mem l hm))
        (hst.iniStep (hls l List.mem_cons_self))
  have hstart : ReadSoFar ([], ∅) := ⟨⟨Text.trimmed_nil, rfl, List.not_mem_nil⟩, by simp⟩
  exact (hloop _ _ (fun l => Text.newline_notMem_of_mem_lines) hstart).2 p v h

/-! ### Texts in this format -/

theorem readLine_nil : readLine [] = .skip := rfl

theorem readLine_comment {l : Text} (h : l.head? = some '#') : readLine l = .skip := by
  have hvisible : ∀ c ∈ l.head?, Text.isWhitespace c = false := by
    intro c hc
    rw [h] at hc
    obtain rfl := Option.some.inj hc
    rfl
  have hhead : l.trim.head? = some '#' := (Text.head?_trim hvisible).trans h
  unfold readLine
  rw [if_pos (Or.inr (Or.inl hhead))]

theorem readLine_header {n : Text} (h : IsName n) : readLine ('[' :: (n ++ [']'])) = .header n := by
  have htrim : Text.trim ('[' :: (n ++ [']'])) = '[' :: (n ++ [']']) := by
    refine Text.trim_eq_self ⟨?_, ?_⟩
    · rintro c ⟨⟩
      rfl
    · intro c hc
      rw [← List.cons_append, List.getLast?_concat] at hc
      obtain rfl := Option.some.inj hc
      rfl
  have hname : (Text.stripPrefix ('[' :: (n ++ [']'])) ['[']).bind (Text.stripSuffix · [']']) =
      some n := by
    have hpre : Text.stripPrefix ('[' :: (n ++ [']'])) ['['] = some (n ++ [']']) :=
      Text.stripPrefix_eq_some_iff.mpr rfl
    rw [hpre, Option.bind_some]
    exact Text.stripSuffix_eq_some_iff.mpr rfl
  unfold readLine
  simp only [htrim]
  rw [if_neg (by simp), hname]
  simp only [Text.trim_eq_self h.trimmed, h.lower]

/-- An entry that is not mistaken for a header. -/
def NotHeader (key raw : Text) : Prop := key.head? ≠ some '[' ∨ raw.getLast? ≠ some ']'

theorem readLine_entry {key raw : Text} (hkey : IsKey key) (hraw : Text.Trimmed raw)
    (hnot : NotHeader key raw) : readLine (key ++ '=' :: raw) = .entry key (unescapeIni raw) := by
  have htrim : Text.trim (key ++ '=' :: raw) = key ++ '=' :: raw :=
    Text.trim_eq_self (hkey.trimmed.join rfl hraw)
  have hhead : (key ++ '=' :: raw).head? = key.head? := List.head?_append_of_ne_nil _ hkey.ne_nil
  have hname : (Text.stripPrefix (key ++ '=' :: raw) ['[']).bind (Text.stripSuffix · [']']) =
      none := by
    rw [Option.bind_eq_none_iff]
    intro inner hpre
    rw [Text.stripPrefix_eq_some_iff] at hpre
    cases hsuf : Text.stripSuffix inner [']'] with
    | none => rfl
    | some name =>
      rw [Text.stripSuffix_eq_some_iff] at hsuf
      rw [hsuf] at hpre
      rcases hnot with hnot | hnot
      · rw [← hhead, hpre] at hnot
        exact absurd rfl hnot
      · -- the line would end with the bracket, and so would the value
        have hlast := congrArg List.getLast? hpre
        rw [← List.append_assoc, List.getLast?_concat, List.getLast?_append,
          List.getLast?_cons] at hlast
        cases hl : raw.getLast? with
        | none =>
          rw [hl] at hlast
          cases hlast
        | some c =>
          rw [hl] at hlast hnot
          exact absurd hlast hnot
  have hsplit : Text.splitOnce (· == '=') (key ++ '=' :: raw) = some (key, raw) :=
    Text.splitOnce_append_cons hkey.noEq raw
  unfold readLine
  simp only [htrim]
  rw [if_neg (by rw [hhead]; simp [hkey.noComment]), hname]
  simp only [hsplit, Text.trim_eq_self hkey.trimmed, hkey.lower, Text.trim_eq_self hraw]

/-- A section of a file: its name, comments, and entries as they are written. -/
structure IniSection where
  name : Text
  comments : List Text
  entries : List (Text × Text)

/-- A line that says nothing. -/
def IsComment (l : Text) : Prop := l = [] ∨ l.head? = some '#'

namespace IniSection

/-- The lines of a section. -/
def lines (s : IniSection) : List Text :=
  ('[' :: (s.name ++ [']'])) :: s.comments ++ s.entries.map fun p => p.1 ++ '=' :: p.2

/-- What a section says. -/
def values (s : IniSection) : List ((Text × Text) × Text) :=
  s.entries.map fun p => ((s.name, p.1), unescapeIni p.2)

/-- Each part of a section comes back. -/
structure Readable (s : IniSection) : Prop where
  name : IsName s.name
  name_ne_nil : s.name ≠ []
  comments : ∀ l ∈ s.comments, IsComment l ∧ '\n' ∉ l
  entries : ∀ p ∈ s.entries, IsKey p.1 ∧ Text.Trimmed p.2 ∧ '\n' ∉ p.2 ∧ NotHeader p.1 p.2

end IniSection

/-- What a loop of insertions adds to a file. -/
def Ini.add (kv : Ini) (values : List ((Text × Text) × Text)) : Ini :=
  values.foldl (fun kv e => kv.insert e.1 e.2) kv

theorem Ini.add_append (kv : Ini) (xs ys : List ((Text × Text) × Text)) :
    kv.add (xs ++ ys) = (kv.add xs).add ys :=
  List.foldl_append

theorem readLine_of_isComment {l : Text} (h : IsComment l) : readLine l = .skip := by
  rcases h with rfl | h
  · exact readLine_nil
  · exact readLine_comment h

theorem foldl_iniStep_comments {ls : List Text} (h : ∀ l ∈ ls, IsComment l) (st : Text × Ini) :
    ls.foldl iniStep st = st := by
  induction ls with
  | nil => rfl
  | cons l ls ih =>
    have hstep : iniStep st l = st := by
      unfold iniStep
      rw [readLine_of_isComment (h l List.mem_cons_self)]
    rw [List.foldl_cons, hstep, ih fun m hm => h m (List.mem_cons_of_mem l hm)]

theorem foldl_iniStep_entries {name : Text} (hname : name ≠ []) {entries : List (Text × Text)}
    (h : ∀ p ∈ entries, IsKey p.1 ∧ Text.Trimmed p.2 ∧ '\n' ∉ p.2 ∧ NotHeader p.1 p.2) (kv : Ini) :
    (entries.map fun p => p.1 ++ '=' :: p.2).foldl iniStep (name, kv) =
      (name, kv.add (entries.map fun p => ((name, p.1), unescapeIni p.2))) := by
  induction entries generalizing kv with
  | nil => rfl
  | cons p entries ih =>
    obtain ⟨hkey, hraw, -, hnot⟩ := h p List.mem_cons_self
    have hstep : iniStep (name, kv) (p.1 ++ '=' :: p.2) =
        (name, kv.insert (name, p.1) (unescapeIni p.2)) := by
      unfold iniStep
      rw [readLine_entry hkey hraw hnot]
      exact if_pos ⟨hname, hkey.ne_nil⟩
    rw [List.map_cons, List.foldl_cons, hstep, ih fun q hq => h q (List.mem_cons_of_mem p hq)]
    rfl

/-- A readable section is read as what it says. -/
theorem IniSection.Readable.foldl_lines {s : IniSection} (h : s.Readable) (st : Text × Ini) :
    s.lines.foldl iniStep st = (s.name, st.2.add s.values) := by
  have hheader : iniStep st ('[' :: (s.name ++ [']'])) = (s.name, st.2) := by
    unfold iniStep
    rw [readLine_header h.name]
  rw [IniSection.lines, List.cons_append, List.foldl_cons, hheader, List.foldl_append,
    foldl_iniStep_comments fun l hl => (h.comments l hl).1,
    foldl_iniStep_entries h.name_ne_nil h.entries]
  rfl

/-- Sections, each after an empty line. -/
def sectionLines (sections : List IniSection) : List Text := sections.flatMap fun s => [] :: s.lines

theorem foldl_sectionLines {sections : List IniSection} (h : ∀ s ∈ sections, s.Readable)
    (st : Text × Ini) :
    ((sectionLines sections).foldl iniStep st).2 =
      st.2.add (sections.flatMap IniSection.values) := by
  induction sections generalizing st with
  | nil => rfl
  | cons s sections ih =>
    have hblank : iniStep st [] = st := rfl
    rw [sectionLines, List.flatMap_cons, List.cons_append, List.foldl_cons, hblank,
      List.foldl_append, (h s List.mem_cons_self).foldl_lines,
      List.flatMap_cons, Ini.add_append]
    exact ih (fun t ht => h t (List.mem_cons_of_mem s ht)) _

theorem newline_notMem_lines {s : IniSection} (h : s.Readable) : ∀ l ∈ s.lines, '\n' ∉ l := by
  intro l hl
  rw [IniSection.lines, List.cons_append] at hl
  rcases List.mem_cons.mp hl with rfl | hl
  · simpa using h.name.oneLine
  rcases List.mem_append.mp hl with hl | hl
  · exact (h.comments l hl).2
  · obtain ⟨p, hp, rfl⟩ := List.mem_map.mp hl
    obtain ⟨hkey, -, hraw, -⟩ := h.entries p hp
    simpa using ⟨hkey.oneLine, hraw⟩

theorem iniStep_stripCr (st : Text × Ini) (l : Text) :
    iniStep st (Text.stripCr l) = iniStep st l := by
  unfold iniStep readLine
  rw [Text.trim_stripCr]

/-- **A text of comments and readable sections is read as what the sections say.** -/
theorem parseIni_of_sections {front : List Text} {sections : List IniSection}
    (hfront : ∀ l ∈ front, IsComment l ∧ '\n' ∉ l) (h : ∀ s ∈ sections, s.Readable) :
    parseIni (Text.unlines (front ++ sectionLines sections)) =
      Ini.add ∅ (sections.flatMap IniSection.values) := by
  have hlines : ∀ l ∈ front ++ sectionLines sections, '\n' ∉ l := by
    intro l hl
    rcases List.mem_append.mp hl with hl | hl
    · exact (hfront l hl).2
    · obtain ⟨s, hs, hl⟩ := List.mem_flatMap.mp hl
      rcases List.mem_cons.mp hl with rfl | hl
      · exact List.not_mem_nil
      · exact newline_notMem_lines (h s hs) l hl
  rw [parseIni, Text.lines_unlines hlines, List.foldl_map]
  simp only [iniStep_stripCr]
  rw [List.foldl_append, foldl_iniStep_comments fun l hl => (hfront l hl).1, foldl_sectionLines h]

end Taskman
