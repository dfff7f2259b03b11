import TradeGraph.Mql.Ident

/-!
# Quoting

A text made fit for a literal comes back from it. The reader here knows only the language: a literal
ends at the first quote that no backslash takes with it, and may not run past the end of its line.
-/

namespace TradeGraph.Mql

open List

/-! ## The language -/

def isLineEnd (c : Char) : Bool := c == '\r' || c == '\n'

/-- The content of a literal whose opening quote was read, and the text after its closing quote. -/
def readContent : List Char → Option (List Char × List Char)
  | [] => none
  | '"' :: rest => some ([], rest)
  | ['\\'] => none
  | '\\' :: c :: rest =>
    if isLineEnd c then none
    else (readContent rest).map fun (content, after) => ('\\' :: c :: content, after)
  | c :: rest =>
    if isLineEnd c then none
    else (readContent rest).map fun (content, after) => (c :: content, after)

/-- A literal at the start of a text: its content and the text after it. -/
def readLiteral : List Char → Option (List Char × List Char)
  | '"' :: rest => readContent rest
  | _ => none

/-- What a character stands for after a backslash. -/
def unescapeChar : Char → Char
  | 'n' => '\n'
  | 'r' => '\r'
  | 't' => '\t'
  | c => c

/-- What the content of a literal stands for. -/
def unescape : List Char → List Char
  | [] => []
  | '\\' :: c :: rest => unescapeChar c :: unescape rest
  | c :: rest => c :: unescape rest

/-! ## One character -/

/-- Line ends as blanks. -/
def blanked (c : Char) : Char := if isLineEnd c then ' ' else c

/-- A character is either escaped by a backslash or stands for itself, a blank for a line end. -/
theorem escapeChar_cases (c : Char) :
    (c = '\\' ∨ c = '"') ∧ escapeChar c = ['\\', c] ∨
      (c ≠ '\\' ∧ c ≠ '"') ∧ escapeChar c = [blanked c] := by
  by_cases hspecial : c = '\\' ∨ c = '"'
  · exact .inl ⟨hspecial, by rcases hspecial with rfl | rfl <;> rfl⟩
  · rw [not_or] at hspecial
    refine .inr ⟨hspecial, ?_⟩
    by_cases hend : c = '\r' ∨ c = '\n' <;> simp [escapeChar, blanked, isLineEnd, hspecial, hend]

theorem isLineEnd_blanked (c : Char) : isLineEnd (blanked c) = false := by
  by_cases h : isLineEnd c
  · simp only [blanked, if_pos h]
    decide
  · simp [blanked, h]

theorem blanked_ne {c d : Char} (hc : c ≠ d) (hd : d ≠ ' ') : blanked c ≠ d := by
  unfold blanked
  split
  · exact hd.symm
  · exact hc

theorem isLineEnd_of_mem_escapeChar {c d : Char} (h : d ∈ escapeChar c) : isLineEnd d = false := by
  rcases escapeChar_cases c with ⟨hc, hesc⟩ | ⟨-, hesc⟩ <;> rw [hesc] at h
  · rcases hc with rfl | rfl <;>
      · simp at h
        rcases h with rfl | rfl <;> rfl
  · rw [mem_singleton.mp h]
    exact isLineEnd_blanked c

/-! ## Whole texts -/

theorem readContent_cons {c : Char} (hquote : c ≠ '"') (hback : c ≠ '\\')
    (hend : isLineEnd c = false) (rest : List Char) :
    readContent (c :: rest) =
      (readContent rest).map fun (content, after) => (c :: content, after) := by
  rw [readContent.eq_def]
  split <;> simp_all

theorem unescape_cons {c : Char} (hback : c ≠ '\\') (rest : List Char) :
    unescape (c :: rest) = c :: unescape rest := by
  rw [unescape.eq_def]
  split <;> simp_all

theorem toList_literal (t : String) :
    (literal t).toList = '"' :: (t.toList.flatMap escapeChar ++ ['"']) := by
  simp [literal, escape]

/-- The reader takes over what is written for one character and goes on behind it. -/
theorem readContent_escapeChar (c : Char) (rest : List Char) :
    readContent (escapeChar c ++ rest) =
      (readContent rest).map fun (content, after) => (escapeChar c ++ content, after) := by
  rcases escapeChar_cases c with ⟨hc, hesc⟩ | ⟨hc, hesc⟩ <;> rw [hesc]
  · rcases hc with rfl | rfl <;> rfl
  · have hquote : blanked c ≠ '"' := blanked_ne hc.2 (by decide)
    have hback : blanked c ≠ '\\' := blanked_ne hc.1 (by decide)
    exact readContent_cons hquote hback (isLineEnd_blanked c) rest

theorem readContent_flatMap_escapeChar (cs rest : List Char) :
    readContent (cs.flatMap escapeChar ++ '"' :: rest) = some (cs.flatMap escapeChar, rest) := by
  induction cs with
  | nil => rfl
  | cons c cs ih => rw [flatMap_cons, append_assoc, readContent_escapeChar, ih]; rfl

theorem unescape_escapeChar (c : Char) (rest : List Char) :
    unescape (escapeChar c ++ rest) = blanked c :: unescape rest := by
  rcases escapeChar_cases c with ⟨hc, hesc⟩ | ⟨hc, hesc⟩ <;> rw [hesc]
  · rcases hc with rfl | rfl <;> rfl
  · exact unescape_cons (blanked_ne hc.1 (by decide)) rest

theorem unescape_flatMap_escapeChar (cs : List Char) :
    unescape (cs.flatMap escapeChar) = cs.map blanked := by
  induction cs with
  | nil => rfl
  | cons c cs ih => rw [flatMap_cons, unescape_escapeChar, ih, map_cons]

/-- Whatever text is quoted and whatever follows: the reader stops at the closing quote, the literal
keeps to one line, and its content stands for the text with blanks for its line ends. -/
theorem literal_read_back (t rest : String) :
    readLiteral (literal t ++ rest).toList = some ((escape t).toList, rest.toList) ∧
      (∀ c ∈ (literal t).toList, c ≠ '\r' ∧ c ≠ '\n') ∧
      unescape (escape t).toList =
        t.toList.map fun c => if c = '\r' ∨ c = '\n' then ' ' else c := by
  refine ⟨?_, ?_, ?_⟩
  · have hread := readContent_flatMap_escapeChar t.toList rest.toList
    simpa [toList_literal, readLiteral, escape] using hread
  · intro c hc
    have hend : isLineEnd c = false := by
      simp only [toList_literal, mem_cons, mem_append, mem_flatMap,
        not_mem_nil, or_false] at hc
      rcases hc with rfl | ⟨d, -, hd⟩ | rfl
      · rfl
      · exact isLineEnd_of_mem_escapeChar hd
      · rfl
    simpa [isLineEnd] using hend
  · rw [escape, String.toList_ofList, unescape_flatMap_escapeChar]
    exact map_congr_left fun c _ => by simp [blanked, isLineEnd]

/-! ## Replacements -/

/-- Every occurrence of a character replaced. -/
def replaced (c : Char) (by' : List Char) (cs : List Char) : List Char :=
  cs.flatMap fun d => if d = c then by' else [d]

/-- The order matters: a backslash written for a quote must not be doubled again. -/
theorem escape_eq_replacements (t : String) :
    (escape t).toList =
      replaced '\n' [' '] (replaced '\r' [' ']
        (replaced '"' ['\\', '"'] (replaced '\\' ['\\', '\\'] t.toList))) := by
  simp only [escape, String.toList_ofList, replaced, flatMap_assoc]
  congr 1
  funext c
  by_cases hback : c = '\\'
  · subst hback; decide
  by_cases hquote : c = '"'
  · subst hquote; decide
  by_cases hreturn : c = '\r'
  · subst hreturn; decide
  by_cases hline : c = '\n'
  · subst hline; decide
  simp [escapeChar, hback, hquote, hreturn, hline]

end TradeGraph.Mql
