import Omniscience.Lib.SlidingWindows
import Omniscience.Parsers.Sections

/-!
# Chunking

`CodeSymbolChunker` and `MarkdownSectionChunker` (`omniscience_parsers/chunking.py`) turn each
section of a document into one chunk, or into overlapping windows if it is too large.  A token is a
word.  Every chunk begins with the headings of its section.

* `isCover_splitText` : the windows cover the words of a text.
* `chunked_iff` : which documents are chunked within the limit.  The headings come on top of a
  window that has the size of the limit already, and the code chunker does not count them at all.
-/

namespace Omniscience.Parsers

open List

open GraphRag (isSpace)
open SlidingWindows (IsCover windows)

/-- `ChunkOutput`. -/
structure ChunkOutput where
  ord : ℕ
  text : String
  symbol : Option String
  metadata : Metadata
  lineStart : Option ℤ
  lineEnd : Option ℤ
  strategy : String

/-- `_count_tokens`. -/
def countTokens (text : String) : ℕ := (split text).length

/-- The loop of `_split_text`, with at most `fuel` windows. -/
def splitWords (words : List String) (maxTokens step : ℕ) : ℕ → ℕ → List String
  | 0, _ => []
  | fuel + 1, start =>
    if start < words.length then
      let stop := min (start + maxTokens) words.length
      " ".intercalate ((words.take stop).drop start) ::
        if stop = words.length then [] else splitWords words maxTokens step fuel (start + step)
    else []

/-- `_split_text`. -/
def splitText (text : String) (maxTokens overlapTokens : ℕ) : List String :=
  let words := split text
  splitWords words maxTokens (max 1 (maxTokens - overlapTokens)) words.length 0

/-- `_heading_prefix`. -/
def headingPrefix (headingPath : List String) : String :=
  if headingPath = [] then "" else " > ".intercalate headingPath ++ "\n\n"

/-- The one chunk of a section that is small enough. -/
def wholeChunk (strategy : String) (baseMeta : Metadata) (sec : Section) (startOrd : ℕ) :
    ChunkOutput where
  ord := startOrd
  text := headingPrefix sec.headingPath ++ sec.text
  symbol := sec.symbol
  metadata := Outbox.mergeDict baseMeta sec.metadata
  lineStart := some sec.lineStart
  lineEnd := some sec.lineEnd
  strategy := strategy

/-- The chunk of the window with a number. -/
def windowChunk (strategy : String) (baseMeta : Metadata) (sec : Section) (startOrd i : ℕ)
    (window : String) : ChunkOutput where
  ord := startOrd + i
  text := headingPrefix sec.headingPath ++ window
  symbol := sec.symbol
  metadata := Outbox.mergeDict (Outbox.mergeDict baseMeta [("window", .int i)]) sec.metadata
  lineStart := some sec.lineStart
  lineEnd := some sec.lineEnd
  strategy := strategy

/-- The chunks of the windows of a section. -/
def windowChunks (strategy : String) (baseMeta : Metadata) (sec : Section) (startOrd : ℕ)
    (windows : List String) : List ChunkOutput :=
  windows.mapIdx fun i window => windowChunk strategy baseMeta sec startOrd i window

/-- The limits that a chunker is made with. -/
structure Limits where
  maxTokens : ℕ
  overlapTokens : ℕ

/-- `chunk` of both chunkers: the ordinals of a section start behind the chunks so far. -/
def chunkSections (chunkSection : Section → ℕ → List ChunkOutput) (parsed : ParsedDocument) :
    List ChunkOutput :=
  parsed.sections.foldl (fun outputs sec => outputs ++ chunkSection sec outputs.length) []

namespace CodeSymbolChunker

def strategy : String := "code_symbol"

/-- `base_meta` of `_chunk_section`. -/
def baseMeta (sec : Section) : Metadata :=
  [("strategy", .str strategy), ("line_range", .arr [.int sec.lineStart, .int sec.lineEnd])]

/-- `CodeSymbolChunker._chunk_section`. -/
def chunkSection (limits : Limits) (sec : Section) (startOrd : ℕ) : List ChunkOutput :=
  if countTokens sec.text ≤ limits.maxTokens then [wholeChunk strategy (baseMeta sec) sec startOrd]
  else windowChunks strategy (baseMeta sec) sec startOrd
    (splitText sec.text limits.maxTokens limits.overlapTokens)

/-- `CodeSymbolChunker.chunk`. -/
def chunk (limits : Limits) (parsed : ParsedDocument) : List ChunkOutput :=
  chunkSections (chunkSection limits) parsed

end CodeSymbolChunker

namespace MarkdownSectionChunker

def strategy : String := "markdown_section"

/-- `base_meta` of `_chunk_section`. -/
def baseMeta (sec : Section) : Metadata :=
  [("strategy", .str strategy), ("section_path", .arr (sec.headingPath.map .str))] ++
    if sec.lineStart ≠ 0 then [("line_range", .arr [.int sec.lineStart, .int sec.lineEnd])] else []

/-- `MarkdownSectionChunker._chunk_section`. -/
def chunkSection (limits : Limits) (sec : Section) (startOrd : ℕ) : List ChunkOutput :=
  if countTokens (headingPrefix sec.headingPath ++ sec.text) ≤ limits.maxTokens then
    [wholeChunk strategy (baseMeta sec) sec startOrd]
  else windowChunks strategy (baseMeta sec) sec startOrd
    (splitText sec.text limits.maxTokens limits.overlapTokens)

/-- `MarkdownSectionChunker.chunk`. -/
def chunk (limits : Limits) (parsed : ParsedDocument) : List ChunkOutput :=
  chunkSections (chunkSection limits) parsed

end MarkdownSectionChunker

/-! ### What a chunking should be -/

/-- The chunks of a section: headings and bodies, and the bodies cover the words of the text. -/
def CoversSection (limits : Limits) (sec : Section) (group : List ChunkOutput) : Prop :=
  ∃ bodies : List String,
    group.map ChunkOutput.text = bodies.map (headingPrefix sec.headingPath ++ ·) ∧
      IsCover (min limits.overlapTokens (limits.maxTokens - 1)) (bodies.map split) (split sec.text)

/-- The ordinals count the chunks, the sections are covered one after the other, and no chunk
exceeds the limit. -/
structure Chunked (limits : Limits) (parsed : ParsedDocument) (chunks : List ChunkOutput) :
    Prop where
  ords : chunks.map ChunkOutput.ord = range chunks.length
  covers : ∃ groups : List (List ChunkOutput), groups.flatten = chunks ∧
    List.Forall₂ (CoversSection limits) parsed.sections groups
  bounded : ∀ c ∈ chunks, countTokens c.text ≤ limits.maxTokens

/-! ### The windows of a text -/

variable {limits : Limits} {sec : Section} {parsed : ParsedDocument} {text : String}
  {words : List String} {maxTokens overlapTokens step fuel start startOrd : ℕ}

theorem splitWords_eq : splitWords words maxTokens step fuel start =
      (windows maxTokens step fuel (words.drop start)).map (" ".intercalate ·) := by
  induction fuel generalizing start with
  | zero => rfl
  | succ fuel ih =>
    rw [splitWords, windows]
    by_cases hstart : start < words.length
    · have hlength : (words.drop start).length = words.length - start := length_drop
      have hne : words.drop start ≠ [] := by
        intro hnil
        rw [hnil, length_nil] at hlength
        omega
      rw [if_pos hstart, if_neg hne]
      dsimp only
      -- the loop stops early exactly when the window holds all that is left
      by_cases hshort : (words.drop start).length ≤ maxTokens
      · have hstop : min (start + maxTokens) words.length = words.length := by omega
        rw [if_pos hshort, hstop, if_pos rfl, take_length, map_singleton]
      · have hstop : min (start + maxTokens) words.length = start + maxTokens := by omega
        have hrest : ¬start + maxTokens = words.length := by omega
        rw [if_neg hshort, hstop, if_neg hrest, ih, map_cons, drop_take,
          drop_drop, Nat.add_sub_cancel_left]
    · rw [if_neg hstart, if_pos (drop_eq_nil_of_le (Nat.le_of_not_lt hstart))]
      rfl

/-- The windows of a text, as lists of words. -/
def textWindows (text : String) (maxTokens overlapTokens : ℕ) : List (List String) :=
  windows maxTokens (max 1 (maxTokens - overlapTokens)) (split text).length (split text)

theorem map_split_splitText : (splitText text maxTokens overlapTokens).map split =
      textWindows text maxTokens overlapTokens := by
  rw [splitText, splitWords_eq, drop_zero, map_map]
  refine (map_congr_left fun ws hws => ?_).trans (map_id _)
  exact split_join fun word hword =>
    isWord_of_mem_split ((SlidingWindows.isInfix_of_mem_windows hws).subset hword)

theorem isCover_splitText (hmax : 1 ≤ maxTokens) : IsCover (min overlapTokens (maxTokens - 1))
      ((splitText text maxTokens overlapTokens).map split) (split text) := by
  rw [map_split_splitText]
  exact SlidingWindows.isCover_windows (by omega) (by omega) le_rfl

theorem forall_countTokens_splitText_iff (text : String) (maxTokens overlapTokens k bound : ℕ) :
    (∀ window ∈ splitText text maxTokens overlapTokens, k + countTokens window ≤ bound) ↔
      countTokens text = 0 ∨ k + min (countTokens text) maxTokens ≤ bound := by
  have hmap : (∀ window ∈ splitText text maxTokens overlapTokens, k + countTokens window ≤ bound) ↔
      ∀ ws ∈ textWindows text maxTokens overlapTokens, k + ws.length ≤ bound := by
    rw [← map_split_splitText, forall_mem_map]
    rfl
  rw [hmap]
  constructor
  · intro h
    by_cases hnil : split text = []
    · exact .inl (by rw [countTokens, hnil, length_nil])
    · right
      obtain ⟨n, hn⟩ := Nat.exists_eq_succ_of_ne_zero (length_pos_iff.2 hnil).ne'
      have hhead : (windows maxTokens (max 1 (maxTokens - overlapTokens)) (n + 1)
          (split text)).head? = some ((split text).take maxTokens) :=
        SlidingWindows.head?_windows hnil
      have hmem : (split text).take maxTokens ∈ textWindows text maxTokens overlapTokens := by
        rw [textWindows, hn]
        exact mem_of_head? hhead
      have := h _ hmem
      rw [length_take, Nat.min_comm] at this
      exact this
  · rintro (h | h) ws hws
    · rw [countTokens] at h
      rw [textWindows, h] at hws
      exact absurd hws not_mem_nil
    · have hlimit := SlidingWindows.length_le_of_mem_windows hws
      have hlength := (SlidingWindows.isInfix_of_mem_windows hws).length_le
      rw [countTokens] at h
      omega

/-! ### Chunks of a section -/

theorem countTokens_headingPrefix_append (headingPath : List String) (text : String) :
    countTokens (headingPrefix headingPath ++ text) =
      countTokens (headingPrefix headingPath) + countTokens text := by
  rw [headingPrefix]
  split_ifs with h
  · rw [String.empty_append, countTokens, countTokens, split_empty, length_nil, Nat.zero_add]
  · have hends : " > ".intercalate headingPath ++ "\n\n" =
        " > ".intercalate headingPath ++ "\n" ++ String.singleton '\n' := by
      rw [String.append_assoc]
      rfl
    rw [hends, countTokens, split_append_of_ends (by decide), length_append]
    rfl

theorem map_ord_windowChunks (strategy : String) (baseMeta : Metadata) (sec : Section)
    (startOrd : ℕ) (ws : List String) :
    (windowChunks strategy baseMeta sec startOrd ws).map ChunkOutput.ord =
      (range ws.length).map (startOrd + ·) := by
  refine ext_getElem (by simp [windowChunks]) fun i h₁ h₂ => ?_
  simp [windowChunks, windowChunk]

theorem map_text_windowChunks (strategy : String) (baseMeta : Metadata) (sec : Section)
    (startOrd : ℕ) (ws : List String) :
    (windowChunks strategy baseMeta sec startOrd ws).map ChunkOutput.text =
      ws.map (headingPrefix sec.headingPath ++ ·) := by
  refine ext_getElem (by simp [windowChunks]) fun i h₁ h₂ => ?_
  simp [windowChunks, windowChunk]

/-- What both chunkers have in common: chunks are numbered and cover the section; they keep to the
limit if the section fits. -/
structure ChunksSections (limits : Limits) (chunkSection : Section → ℕ → List ChunkOutput)
    (Fits : Section → Prop) : Prop where
  ords : ∀ sec startOrd, (chunkSection sec startOrd).map ChunkOutput.ord =
    (range (chunkSection sec startOrd).length).map (startOrd + ·)
  covers : ∀ sec startOrd, CoversSection limits sec (chunkSection sec startOrd)
  bounded_iff : ∀ sec startOrd,
    (∀ c ∈ chunkSection sec startOrd, countTokens c.text ≤ limits.maxTokens) ↔ Fits sec

variable {baseMeta : Metadata} {strategy : String}

theorem coversSection_whole :
    CoversSection limits sec [wholeChunk strategy baseMeta sec startOrd] :=
  ⟨[sec.text], rfl, SlidingWindows.isCover_singleton _⟩

theorem coversSection_windows (hmax : 1 ≤ limits.maxTokens) :
    CoversSection limits sec (windowChunks strategy baseMeta sec startOrd
      (splitText sec.text limits.maxTokens limits.overlapTokens)) :=
  ⟨_, map_text_windowChunks _ _ _ _ _, isCover_splitText hmax⟩

theorem bounded_windows_iff :
    (∀ c ∈ windowChunks strategy baseMeta sec startOrd
        (splitText sec.text limits.maxTokens limits.overlapTokens),
      countTokens c.text ≤ limits.maxTokens) ↔
    countTokens sec.text = 0 ∨
      countTokens (headingPrefix sec.headingPath) + min (countTokens sec.text) limits.maxTokens ≤
        limits.maxTokens := by
  rw [← forall_countTokens_splitText_iff sec.text _ limits.overlapTokens]
  have htexts := map_text_windowChunks strategy baseMeta sec startOrd
    (splitText sec.text limits.maxTokens limits.overlapTokens)
  constructor
  · intro h window hwindow
    have hmem : headingPrefix sec.headingPath ++ window ∈
        (windowChunks strategy baseMeta sec startOrd
          (splitText sec.text limits.maxTokens limits.overlapTokens)).map ChunkOutput.text := by
      rw [htexts]
      exact mem_map_of_mem hwindow
    obtain ⟨c, hc, htext⟩ := mem_map.1 hmem
    have hbound := h c hc
    rwa [htext, countTokens_headingPrefix_append] at hbound
  · intro h c hc
    have hmem : c.text ∈ (windowChunks strategy baseMeta sec startOrd
        (splitText sec.text limits.maxTokens limits.overlapTokens)).map ChunkOutput.text :=
      mem_map_of_mem hc
    rw [htexts] at hmem
    obtain ⟨window, hwindow, htext⟩ := mem_map.1 hmem
    rw [← htext, countTokens_headingPrefix_append]
    exact h window hwindow

/-! ### Documents -/

/-- A section fits if the headings have no tokens, or leave room for the whole text. -/
def CodeSymbolChunker.Fits (limits : Limits) (sec : Section) : Prop :=
  countTokens (headingPrefix sec.headingPath) = 0 ∨
    countTokens (headingPrefix sec.headingPath) + countTokens sec.text ≤ limits.maxTokens

/-- As `CodeSymbolChunker.Fits`; a text without words yields no chunk under long headings. -/
def MarkdownSectionChunker.Fits (limits : Limits) (sec : Section) : Prop :=
  countTokens sec.text = 0 ∨ CodeSymbolChunker.Fits limits sec

instance (limits : Limits) (sec : Section) : Decidable (CodeSymbolChunker.Fits limits sec) :=
  inferInstanceAs (Decidable (_ ∨ _))

instance (limits : Limits) (sec : Section) : Decidable (MarkdownSectionChunker.Fits limits sec) :=
  inferInstanceAs (Decidable (_ ∨ _))

theorem forall_whole_iff :
    (∀ c ∈ [wholeChunk strategy baseMeta sec startOrd], countTokens c.text ≤ limits.maxTokens) ↔
      countTokens (headingPrefix sec.headingPath) + countTokens sec.text ≤ limits.maxTokens := by
  rw [forall_mem_singleton, wholeChunk, countTokens_headingPrefix_append]

theorem CodeSymbolChunker.chunksSections (hmax : 1 ≤ limits.maxTokens) :
    ChunksSections limits (chunkSection limits) (Fits limits) where
  ords sec startOrd := by
    unfold chunkSection
    split_ifs
    · rfl
    · rw [map_ord_windowChunks, windowChunks, length_mapIdx]
  covers sec startOrd := by
    unfold chunkSection
    split_ifs
    · exact coversSection_whole
    · exact coversSection_windows hmax
  bounded_iff sec startOrd := by
    unfold chunkSection Fits
    split_ifs
    · rw [forall_whole_iff]
      omega
    · rw [bounded_windows_iff]
      omega

theorem MarkdownSectionChunker.chunksSections (hmax : 1 ≤ limits.maxTokens) :
    ChunksSections limits (chunkSection limits) (Fits limits) where
  ords sec startOrd := by
    unfold chunkSection
    split_ifs
    · rfl
    · rw [map_ord_windowChunks, windowChunks, length_mapIdx]
  covers sec startOrd := by
    unfold chunkSection
    split_ifs
    · exact coversSection_whole
    · exact coversSection_windows hmax
  bounded_iff sec startOrd := by
    unfold chunkSection Fits CodeSymbolChunker.Fits
    simp only [countTokens_headingPrefix_append]
    split_ifs
    · rw [forall_whole_iff]
      omega
    · rw [bounded_windows_iff]
      omega

variable {chunkSection : Section → ℕ → List ChunkOutput} {Fits : Section → Prop}

theorem ChunksSections.exists_groups (h : ChunksSections limits chunkSection Fits)
    (parsed : ParsedDocument) :
    ∃ groups : List (List ChunkOutput),
      groups.flatten = chunkSections chunkSection parsed ∧
        (chunkSections chunkSection parsed).map ChunkOutput.ord =
          range (chunkSections chunkSection parsed).length ∧
        List.Forall₂ (fun sec group => ∃ startOrd, group = chunkSection sec startOrd)
          parsed.sections groups := by
  unfold chunkSections
  -- from the last section: its ordinals start behind the chunks before it
  induction parsed.sections using reverseRecOn with
  | nil => exact ⟨[], rfl, rfl, .nil⟩
  | append_singleton secs sec ih =>
    obtain ⟨groups, hflatten, hords, hgroups⟩ := ih
    rw [foldl_append, foldl_cons, foldl_nil]
    generalize secs.foldl _ [] = outputs at hflatten hords
    refine ⟨groups ++ [chunkSection sec outputs.length], ?_, ?_, ?_⟩
    · rw [flatten_append, hflatten, flatten_singleton]
    · rw [map_append, hords, h.ords, length_append, range_add]
    · exact rel_append hgroups (.cons ⟨_, rfl⟩ .nil)

theorem ChunksSections.forall_fits_iff (h : ChunksSections limits chunkSection Fits)
    (parsed : ParsedDocument) :
    Chunked limits parsed (chunkSections chunkSection parsed) ↔
      ∀ sec ∈ parsed.sections, Fits sec := by
  obtain ⟨groups, hflatten, hords, hgroups⟩ := h.exists_groups parsed
  have hcovers : List.Forall₂ (CoversSection limits) parsed.sections groups := by
    refine hgroups.imp fun sec group hgroup => ?_
    obtain ⟨startOrd, rfl⟩ := hgroup
    exact h.covers sec startOrd
  have hbounded : (∀ group ∈ groups, ∀ c ∈ group, countTokens c.text ≤ limits.maxTokens) ↔
      ∀ sec ∈ parsed.sections, Fits sec := by
    clear hflatten hcovers hords
    generalize parsed.sections = sections at hgroups
    induction hgroups with
    | nil => exact ⟨fun _ _ hmem => absurd hmem not_mem_nil,
        fun _ _ hmem => absurd hmem not_mem_nil⟩
    | cons hgroup _ ih =>
      obtain ⟨startOrd, rfl⟩ := hgroup
      rw [forall_mem_cons, forall_mem_cons, h.bounded_iff, ih]
  rw [← hbounded]
  constructor
  · intro hchunked group hgroup c hc
    refine hchunked.bounded c ?_
    rw [← hflatten]
    exact mem_flatten_of_mem hgroup hc
  · intro hfits
    refine ⟨hords, ⟨groups, hflatten, hcovers⟩, fun c hc => ?_⟩
    rw [← hflatten] at hc
    obtain ⟨group, hgroup, hc⟩ := mem_flatten.1 hc
    exact hfits group hgroup c hc

/-- **Chunking keeps to the limit exactly if the headings leave room for the text**: ordinals and
covering always hold, but the headings come on top of each body. -/
theorem chunked_iff (limits : Limits) (hmax : 1 ≤ limits.maxTokens) (parsed : ParsedDocument) :
    (Chunked limits parsed (CodeSymbolChunker.chunk limits parsed) ↔
        ∀ sec ∈ parsed.sections, CodeSymbolChunker.Fits limits sec) ∧
      (Chunked limits parsed (MarkdownSectionChunker.chunk limits parsed) ↔
        ∀ sec ∈ parsed.sections, MarkdownSectionChunker.Fits limits sec) :=
  ⟨(CodeSymbolChunker.chunksSections hmax).forall_fits_iff parsed,
    (MarkdownSectionChunker.chunksSections hmax).forall_fits_iff parsed⟩

/-- A section with one heading. -/
def sampleSection : Section where
  headingPath := ["Install"]
  text := "run the script"
  lineStart := 1
  lineEnd := 3
  symbol := none
  metadata := []

def sampleParsed : ParsedDocument where
  title := none
  sections := [sampleSection]
  metadata := []
  contentType := "text/markdown"
  language := none

theorem chunked_iff_sample :
    Chunked ⟨4, 1⟩ sampleParsed (CodeSymbolChunker.chunk ⟨4, 1⟩ sampleParsed) ∧
      Chunked ⟨4, 1⟩ sampleParsed (MarkdownSectionChunker.chunk ⟨4, 1⟩ sampleParsed) :=
  ⟨(chunked_iff ⟨4, 1⟩ (by decide) sampleParsed).1.2 (by decide),
    (chunked_iff ⟨4, 1⟩ (by decide) sampleParsed).2.2 (by decide)⟩

/-- With a limit of three tokens, the text is one window and the heading is a fourth token. -/
theorem not_chunked_sample :
    ¬Chunked ⟨3, 1⟩ sampleParsed (CodeSymbolChunker.chunk ⟨3, 1⟩ sampleParsed) ∧
      ¬Chunked ⟨3, 1⟩ sampleParsed (MarkdownSectionChunker.chunk ⟨3, 1⟩ sampleParsed) := by
  constructor
  · intro h
    exact absurd h.bounded (by decide)
  · intro h
    exact absurd h.bounded (by decide)

end Omniscience.Parsers
