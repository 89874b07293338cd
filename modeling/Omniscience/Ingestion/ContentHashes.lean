import Omniscience.Lib.Trimming
import Omniscience.Parsers.Sections

/-!
# Content hashes

`normalize_content` (`omniscience_index/hashing.py`) removes what an editor may change without
meaning it: a byte order mark, white space at the ends of lines, and all blank lines but one before
a line with text.  `compute_content_hash` hashes the result, and decides whether a document is
indexed again; the pipeline has the same function once more.

What is left of a text is its `shape`: its lines with text, each with a flag that says whether a
blank line stands before it.

* `normalizeContent_idempotent` : the normal form is stable.
* `normalizeContent_eq_iff` : two texts have one normal form exactly if they have one shape.
-/

namespace Omniscience.Hashing

open GraphRag (isSpace)
open List
open Parsers (isLineBreak linesFrom splitlines)

/-- The lines of a text without its byte order marks, each without white space at its end:
`[line.rstrip() for line in text.lstrip("\ufeff").splitlines()]`. -/
def strippedLines (text : List Char) : List (List Char) :=
  (splitlines (text.dropWhile (· == '\uFEFF'))).map (·.rdropWhile isSpace)

/-- The loop of `normalize_content` with its local variables. -/
def collapse : (normalized : List (List Char)) → (blankRun : ℕ) → List (List Char) →
    List (List Char)
  | normalized, _, [] => normalized
  | normalized, blankRun, line :: lines =>
    if line = [] then collapse normalized (blankRun + 1) lines
    else
      let normalized := if 0 < blankRun then normalized ++ [[]] else normalized
      collapse (normalized ++ [line]) 0 lines

/-- The characters of `normalize_content(text)`. -/
def normalChars (text : List Char) : List Char :=
  ['\n'].intercalate (collapse [] 0 (strippedLines text))

/-- `normalize_content`. -/
def normalizeContent (text : String) : String := String.ofList (normalChars text.toList)

/-- `compute_content_hash`, and `_compute_content_hash` of the pipeline (`ingestion/pipeline.py`),
which has the same body. -/
def computeContentHash (py : Py) (text : String) : String := py.sha256 (normalizeContent text)

/-- The shape of lines: those that are not blank, each with a flag that says whether a blank line
stands before it. -/
def shape : (blank : Bool) → List (List Char) → List (Bool × List Char)
  | _, [] => []
  | blank, line :: lines =>
    if line = [] then shape true lines else (blank, line) :: shape false lines

/-- The lines of a shape. -/
def linesOf (paragraphs : List (Bool × List Char)) : List (List Char) :=
  paragraphs.flatMap fun p => if p.1 then [[], p.2] else [p.2]

/-! ### The loop -/

theorem collapse_eq (normalized : List (List Char)) (blankRun : ℕ) (lines : List (List Char)) :
    collapse normalized blankRun lines =
      normalized ++ linesOf (shape (decide (0 < blankRun)) lines) := by
  induction lines generalizing normalized blankRun with
  | nil => simp [collapse, shape, linesOf]
  | cons line lines ih =>
    rw [collapse, shape]
    by_cases hline : line = []
    · have hpos : decide (0 < blankRun + 1) = true := by simp
      rw [if_pos hline, if_pos hline, ih, hpos]
    · rw [if_neg hline, if_neg hline, ih]
      by_cases hrun : 0 < blankRun
      · simp [hrun, linesOf]
      · simp [hrun, linesOf]

/-- The shape of a text. -/
def shapeOf (text : List Char) : List (Bool × List Char) := shape false (strippedLines text)

theorem normalChars_eq (text : List Char) :
    normalChars text = ['\n'].intercalate (linesOf (shapeOf text)) := by
  rw [normalChars, collapse_eq]
  rfl

variable {lines : List (List Char)}

theorem mem_shape {blank : Bool} {p : Bool × List Char} (h : p ∈ shape blank lines) :
    p.2 ∈ lines ∧ p.2 ≠ [] := by
  induction lines generalizing blank with
  | nil => cases h
  | cons line lines ih =>
    rw [shape] at h
    split at h
    · exact (ih h).imp_left (mem_cons_of_mem line)
    · rename_i hline
      rcases mem_cons.1 h with rfl | h
      · exact ⟨mem_cons_self, hline⟩
      · exact (ih h).imp_left (mem_cons_of_mem line)

variable {paragraphs : List (Bool × List Char)}

theorem shape_linesOf (h : ∀ p ∈ paragraphs, p.2 ≠ []) :
    shape false (linesOf paragraphs) = paragraphs := by
  induction paragraphs with
  | nil => rfl
  | cons p paragraphs ih =>
    obtain ⟨blank, line⟩ := p
    have hline : line ≠ [] := h _ mem_cons_self
    have hrest := ih fun q hq => h q (mem_cons_of_mem _ hq)
    rw [linesOf] at hrest ⊢
    cases blank <;> simp [shape, hline, hrest]

/-! ### Lines that are joined and split again -/

theorem linesFrom_append {line l : List Char} (h : ∀ c ∈ l, isLineBreak c = false)
    (rest : List Char) : linesFrom line (l ++ rest) = linesFrom (line ++ l) rest := by
  induction l generalizing line with
  | nil => rw [nil_append, append_nil]
  | cons c l ih =>
    have hc := h c mem_cons_self
    have hcr : c ≠ '\r' := by
      rintro rfl
      cases hc
    rw [cons_append, linesFrom, hc, if_neg Bool.false_ne_true,
      ih fun d hd => h d (mem_cons_of_mem _ hd), append_assoc]
    · rfl
    · intro _ hl' _
      exact hcr hl'

theorem linesFrom_newline (line rest : List Char) :
    linesFrom line ('\n' :: rest) = line :: linesFrom [] rest := by
  rw [linesFrom]
  · rfl
  · intro _ hl' _
    exact absurd hl' (by decide)

theorem splitlines_intercalate (h : ∀ l ∈ lines, ∀ c ∈ l, isLineBreak c = false)
    (hlast : ∀ l ∈ lines.getLast?, l ≠ []) : splitlines (['\n'].intercalate lines) = lines := by
  induction lines with
  | nil => rfl
  | cons line lines ih =>
    have hline := h line mem_cons_self
    cases lines with
    | nil =>
      have happend : linesFrom [] (line ++ []) = _ := linesFrom_append hline []
      rw [append_nil, nil_append] at happend
      rw [intercalate_singleton, splitlines, happend]
      cases line with
      | nil => exact absurd rfl (hlast [] rfl)
      | cons c line => rw [linesFrom]; simp
    | cons next lines =>
      rw [intercalate_cons_cons, splitlines, append_assoc, linesFrom_append hline,
        nil_append, singleton_append, linesFrom_newline]
      exact congrArg (line :: ·) (ih (fun l hl => h l (mem_cons_of_mem _ hl))
        fun l hl => hlast l (by simpa using hl))

theorem mem_linesFrom {line text l : List Char} (hline : ∀ c ∈ line, isLineBreak c = false)
    (hl : l ∈ linesFrom line text) : ∀ c ∈ l, isLineBreak c = false := by
  fun_induction linesFrom line text with
  | case1 => cases hl
  | case2 line hne =>
    rw [mem_singleton.1 hl]
    exact hline
  | case3 line text ih =>
    rcases mem_cons.1 hl with rfl | hl
    · exact hline
    · exact ih (by simp) hl
  | case4 line c text hne hbreak ih =>
    rcases mem_cons.1 hl with rfl | hl
    · exact hline
    · exact ih (by simp) hl
  | case5 line c text hne hbreak ih =>
    refine ih (fun d hd => ?_) hl
    rcases mem_append.1 hd with hd | hd
    · exact hline d hd
    · rw [mem_singleton.1 hd]
      simpa using hbreak

theorem head_linesFrom {line text : List Char} (h : line ≠ []) :
    ∃ rest more, linesFrom line text = (line ++ rest) :: more := by
  fun_induction linesFrom line text with
  | case1 => exact absurd rfl h
  | case2 line hne => exact ⟨[], [], by rw [append_nil]⟩
  | case3 line text ih => exact ⟨[], _, by rw [append_nil]⟩
  | case4 line c text hne hbreak ih => exact ⟨[], _, by rw [append_nil]⟩
  | case5 line c text hne hbreak ih =>
    obtain ⟨rest, more, hlines⟩ := ih (by simp)
    exact ⟨c :: rest, more, by rw [hlines, append_assoc]; rfl⟩

theorem head_splitlines {text line : List Char} (h : splitlines text = line :: lines)
    (hline : line ≠ []) : line.head? = text.head? := by
  rw [splitlines] at h
  unfold linesFrom at h
  split at h
  · cases h
  · contradiction
  · exact absurd (List.cons.inj h).1.symm hline
  · split at h
    · exact absurd (List.cons.inj h).1.symm hline
    · rename_i c rest _ _
      obtain ⟨more, lines', hlines⟩ := @head_linesFrom ([] ++ [c]) rest (by simp)
      rw [h] at hlines
      rw [(List.cons.inj hlines).1]
      rfl

/-! ### Normal forms -/

/-- A line of a normal form: without line breaks and white space at its end. -/
def Clean (line : List Char) : Prop :=
  (∀ c ∈ line, isLineBreak c = false) ∧ line.rdropWhile isSpace = line

theorem clean_of_mem {text line : List Char} (h : line ∈ strippedLines text) : Clean line := by
  obtain ⟨l, hl, rfl⟩ := mem_map.1 h
  refine ⟨fun c hc => ?_, rdropWhile_idempotent isSpace l⟩
  exact mem_linesFrom (by simp) hl c (( rdropWhile_prefix isSpace l).subset hc)

variable {line : List Char}

theorem mem_linesOf (h : line ∈ linesOf paragraphs) : line = [] ∨ ∃ p ∈ paragraphs, line = p.2 := by
  obtain ⟨p, hp, hline⟩ := mem_flatMap.1 h
  cases hb : p.1 with
  | false => exact .inr ⟨p, hp, by simpa [hb] using hline⟩
  | true =>
    have : line = [] ∨ line = p.2 := by simpa [hb] using hline
    exact this.imp_right fun hline => ⟨p, hp, hline⟩

variable (text : List Char)

theorem clean_linesOf (h : line ∈ linesOf (shapeOf text)) : Clean line := by
  rcases mem_linesOf h with rfl | ⟨p, hp, rfl⟩
  · exact ⟨by simp, rfl⟩
  · exact clean_of_mem (mem_shape hp).1

theorem getLast_linesOf (h : line ∈ (linesOf (shapeOf text)).getLast?) : line ≠ [] := by
  -- the last paragraph ends with its own line
  rcases eq_nil_or_concat (shapeOf text) with hnil | ⟨init, p, hinit⟩
  · rw [hnil] at h
    cases h
  · have hp : p ∈ shapeOf text := by simp [hinit]
    have hline := (mem_shape hp).2
    rw [hinit, linesOf, concat_eq_append, flatMap_append] at h
    cases hb : p.1 <;> simp [hb] at h <;> rwa [← h]

theorem flag_of_shape {p : Bool × List Char} (h : shape true lines = p :: paragraphs) :
    p.1 = true := by
  induction lines with
  | nil => cases h
  | cons line lines ih =>
    rw [shape] at h
    split at h
    · exact ih h
    · rw [← (List.cons.inj h).1]

theorem head_of_shape (h : shape false lines = (false, line) :: paragraphs) :
    lines.head? = some line := by
  cases lines with
  | nil => cases h
  | cons l lines =>
    rw [shape] at h
    split at h
    · cases flag_of_shape h
    · cases (List.cons.inj h).1
      rfl

theorem head_strippedLines (h : (strippedLines text).head? = some line) :
    ∀ c ∈ line.head?, (c == '\uFEFF') = false := by
  intro c hc
  rw [strippedLines, List.head?_map] at h
  obtain ⟨l, hl, rfl⟩ := Option.map_eq_some_iff.1 h
  have hl₀ : l ≠ [] := by
    rintro rfl
    cases hc
  obtain ⟨behind, hbehind⟩ := rdropWhile_prefix isSpace l
  have hhead : l.head? = some c := by
    rw [← hbehind, List.head?_append, Option.mem_def.1 hc]
    rfl
  obtain ⟨lines, hlines⟩ : ∃ lines, splitlines (text.dropWhile (· == '\uFEFF')) = l :: lines := by
    cases hsplit : splitlines (text.dropWhile (· == '\uFEFF')) with
    | nil => rw [hsplit] at hl; cases hl
    | cons l' lines =>
      rw [hsplit] at hl
      cases hl
      exact ⟨lines, rfl⟩
  have hnot := List.head?_dropWhile_not (· == '\uFEFF') text
  rw [← head_splitlines hlines hl₀, hhead] at hnot
  exact hnot

/-- **The lines of the normal form** are those of the shape. -/
theorem strippedLines_normalChars : strippedLines (normalChars text) = linesOf (shapeOf text) := by
  have hbom : (normalChars text).dropWhile (· == '\uFEFF') = normalChars text := by
    refine Trimming.dropWhile_of_head fun c hc => ?_
    rw [normalChars_eq] at hc
    cases hshape : shapeOf text with
    | nil =>
      rw [hshape] at hc
      cases hc
    | cons p paragraphs =>
      obtain ⟨blank, line⟩ := p
      have hmem : (blank, line) ∈ shapeOf text := by simp [hshape]
      obtain ⟨d, line, rfl⟩ := exists_cons_of_ne_nil (mem_shape hmem).2
      rw [hshape] at hc
      cases blank with
      | true =>
        -- the normal form begins with the line feed behind the blank line
        have hc : '\n' = c := by simpa [linesOf, intercalate_cons_cons] using hc
        rw [← hc]
        rfl
      | false =>
        have hd : d = c := by
          cases hrest : linesOf paragraphs with
          | nil =>
            rw [linesOf] at hrest
            simpa [linesOf, hrest] using hc
          | cons l ls =>
            rw [linesOf] at hrest
            simpa [linesOf, hrest, intercalate_cons_cons] using hc
        rw [← hd]
        exact head_strippedLines text (head_of_shape hshape) d rfl
  have hlines : splitlines (normalChars text) = linesOf (shapeOf text) := by
    rw [normalChars_eq]
    exact splitlines_intercalate (fun l hl => (clean_linesOf text hl).1)
      fun l hl => getLast_linesOf text hl
  rw [strippedLines, hbom, hlines]
  exact (map_congr_left fun l hl => (clean_linesOf text hl).2).trans (map_id _)

theorem shapeOf_normalChars : shapeOf (normalChars text) = shapeOf text := by
  rw [shapeOf, strippedLines_normalChars]
  exact shape_linesOf fun p hp => (mem_shape hp).2

/-- **The normal form is stable.** -/
theorem normalizeContent_idempotent (text : String) :
    normalizeContent (normalizeContent text) = normalizeContent text := by
  rw [normalizeContent, normalizeContent, String.toList_ofList,
    normalChars_eq (normalChars text.toList), shapeOf_normalChars, ← normalChars_eq]

theorem normalizeContent_eq_iff (s t : String) :
    normalizeContent s = normalizeContent t ↔ shapeOf s.toList = shapeOf t.toList := by
  rw [normalizeContent, normalizeContent, String.ofList_inj]
  constructor
  · intro h
    rw [← shapeOf_normalChars, h, shapeOf_normalChars]
  · intro h
    rw [normalChars_eq, h, ← normalChars_eq]

theorem computeContentHash_eq_iff {py : Py} (hsha : Function.Injective py.sha256) (s t : String) :
    computeContentHash py s = computeContentHash py t ↔ shapeOf s.toList = shapeOf t.toList :=
  hsha.eq_iff.trans (normalizeContent_eq_iff s t)

/-- **Content hashes see what is not cosmetic.**  The normal form is stable, and two texts have one
normal form exactly if they have the same lines with text, up to white space at their ends, and a
blank line before the same of them. -/
theorem content_normal_form :
    (∀ text, normalizeContent (normalizeContent text) = normalizeContent text) ∧
    ∀ s t : String, normalizeContent s = normalizeContent t ↔
      shape false (strippedLines s.toList) = shape false (strippedLines t.toList) :=
  ⟨normalizeContent_idempotent, normalizeContent_eq_iff⟩

end Omniscience.Hashing
