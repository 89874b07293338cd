import Omniscience.Base.Mapping
import Omniscience.Lib.Words
import Omniscience.Retrieval.GraphRag

/-!
# Parsed documents

Every parser of `omniscience_parsers` returns a `ParsedDocument`, a list of sections with their
lines, symbols and metadata (`omniscience_parsers/base.py`).  Chunkers and the extraction of the
infrastructure graph read it.

* `split_append_of_ends` : a text that ends with white space keeps its words apart.
* `split_join` : words joined by a blank are read back.
-/

namespace Omniscience.Parsers

open GraphRag (isSpace)

/-- `Section`: a part of a parsed document, with lines counted from 1. -/
structure Section where
  headingPath : List String
  text : String
  lineStart : ℤ
  lineEnd : ℤ
  symbol : Option String
  metadata : Metadata

/-- `ParsedDocument`. -/
structure ParsedDocument where
  title : Option String
  sections : List Section
  metadata : Metadata
  contentType : String
  language : Option String

/-- Library functions that the parsers call, besides those of `Py`. -/
structure ParserPy extends Py where
  /-- `json.loads`; the error is the text of the `JSONDecodeError`. -/
  loadsText : String → Except String Json
  /-- `json.dumps(value, indent=2)`. -/
  dumpsIndent : Json → String
  /-- `c.isalnum()` of a character that is not ASCII. -/
  isAlnum : Char → Bool

/-- `c == "_" or c.isalnum()`, the characters of a word in a pattern. -/
def ParserPy.isWordChar (py : ParserPy) (c : Char) : Bool :=
  c = '_' || c.isAlphanum || (127 < c.toNat && py.isAlnum c)

/-- A runtime that reads the given texts and shows small values as the real one does. -/
def ParserPy.sample (texts : List (String × Json)) : ParserPy where
  toPy :=
    { Py.sample with
      repr := fun
        | .int n => toString n
        | .str s => "'" ++ s ++ "'"
        | _ => "..."
      decodeReplace := fun data => String.ofList (data.map fun b => Char.ofNat b.toNat) }
  loadsText text :=
    match texts.lookup text with
    | some v => .ok v
    | none => .error "Expecting value: line 1 column 1 (char 0)"
  dumpsIndent
    | .obj [(name, .obj [])] => "\x7b\n  \"" ++ name ++ "\": \x7b\x7d\n\x7d"
    | _ => "\x7b\x7d"
  isAlnum _ := false

/-- The bytes of an ASCII text. -/
def asciiBytes (text : String) : Bytes := text.toList.map fun c => UInt8.ofNat c.toNat

theorem asciiBytes_ofList (l : List Char) :
    asciiBytes (String.ofList l) = l.map fun c => UInt8.ofNat c.toNat := by
  rw [asciiBytes, String.toList_ofList]

theorem decodeReplace_asciiBytes (texts : List (String × Json)) {l : List Char}
    (h : l.all (·.toNat < 256) = true) :
    (ParserPy.sample texts).decodeReplace (asciiBytes (String.ofList l)) = String.ofList l := by
  have hchar : ∀ c ∈ l, Char.ofNat (UInt8.ofNat c.toNat).toNat = c := by
    intro c hc
    have hlt : c.toNat < 256 := of_decide_eq_true (List.all_eq_true.1 h c hc)
    simp [Nat.mod_eq_of_lt hlt]
  have hmap : (l.map fun c => UInt8.ofNat c.toNat).map (fun b => Char.ofNat b.toNat) = l := by
    rw [List.map_map]
    exact (List.map_congr_left hchar).trans (List.map_id' l)
  rw [asciiBytes_ofList]
  exact congrArg String.ofList hmap

/-- `for x in value`: a text has its characters, a mapping its keys. -/
def iterate : Json → Except Exc (List Json)
  | .arr l => .ok l
  | .str s => .ok (s.toList.map fun c => .str (String.singleton c))
  | .obj members => .ok (members.map fun p => .str p.1)
  | v => .error ⟨.typeError, "'" ++ v.typeName ++ "' object is not iterable"⟩

/-! ### Lines -/

/-- A character that ends a line for `splitlines`. -/
def isLineBreak (c : Char) : Bool :=
  let n := c.toNat
  (10 ≤ n && n ≤ 13) || (28 ≤ n && n ≤ 30) || n == 0x85 || n == 0x2028 || n == 0x2029

/-- `text.splitlines()`, behind a line that has begun; `\r\n` ends one line. -/
def linesFrom : List Char → List Char → List (List Char)
  | [], [] => []
  | line, [] => [line]
  | line, '\r' :: '\n' :: l => line :: linesFrom [] l
  | line, c :: l => if isLineBreak c then line :: linesFrom [] l else linesFrom (line ++ [c]) l

attribute [grind =] linesFrom

/-- `text.splitlines()`. -/
def splitlines (text : List Char) : List (List Char) := linesFrom [] text

/-! ### Words -/

/-- `text.split()`. -/
def split (text : String) : List String := (Words.words isSpace text.toList).map String.ofList

/-- What `split` yields: not empty and without white space. -/
def IsWord (word : String) : Prop := Words.IsWord isSpace word.toList

theorem isWord_of_mem_split {text word : String} (h : word ∈ split text) : IsWord word := by
  obtain ⟨l, hl, rfl⟩ := List.mem_map.1 h
  rw [IsWord, String.toList_ofList]
  exact Words.isWord_of_mem_words hl

@[simp] theorem split_empty : split "" = [] := rfl

theorem split_append_of_ends {c : Char} (hc : isSpace c = true) (init rest : String) :
    split (init ++ String.singleton c ++ rest) =
      split (init ++ String.singleton c) ++ split rest := by
  rw [split, split, split, String.toList_append, String.toList_append, String.toList_singleton,
    Words.words_append_of_ends hc, List.map_append]

theorem split_join {words : List String} (h : ∀ word ∈ words, IsWord word) :
    split (" ".intercalate words) = words := by
  have hwords : ∀ l ∈ words.map String.toList, Words.IsWord isSpace l := by
    intro l hl
    obtain ⟨word, hword, rfl⟩ := List.mem_map.1 hl
    exact h word hword
  rw [split, String.toList_intercalate, show (" " : String).toList = [' '] from rfl,
    Words.words_intercalate (by decide) hwords, List.map_map]
  simp [Function.comp_def, String.ofList_toList]

end Omniscience.Parsers
