import Omniscience.Lib.Substitution
import Omniscience.Retrieval.GraphRag

/-!
# The text of a symptom

`normalise_symptom` (`omniscience_index/clustering.py`) replaces the timestamps and the hexadecimal
blobs of a text, cuts off the suffixes of pods, replaces the long numbers, collapses the white space
and turns the letters to lower case in the end.  `compute_signature` joins the result to the type of
the alert and to the service.
-/

namespace Omniscience.Clustering

open GraphRag (isSpace strip)
open Regex (sat edge chr seqs opt alt plus exactly atLeast wordEdge wholeWord)

/-- What the interpreter knows about letters. -/
structure Letters where
  /-- `\w` of a pattern. -/
  isWord : Char → Bool
  /-- `\d` of a pattern. -/
  isDigit : Char → Bool
  /-- What `lower` makes of a letter between what stands before, read backwards, and behind it. -/
  lowerAt : (before after : List Char) → Char → List Char

variable (letters : Letters)

/-- The letters behind a place in lower case. -/
def Letters.lowerFrom : (before after : List Char) → List Char
  | _, [] => []
  | before, c :: after => letters.lowerAt before after c ++ lowerFrom (c :: before) after

/-- `text.lower()`. -/
def Letters.lower (text : String) : String := String.ofList (letters.lowerFrom [] text.toList)

/-- `pattern.sub(repl, text)`. -/
def resub (pattern : Regex Char) (repl text : String) : String :=
  String.ofList (Regex.sub pattern repl.toList text.toList)

/-- What holds of the letters of a text is decided along the text, not for all letters. -/
instance (priority := high) decidableForallMem {P : Char → Prop} [DecidablePred P]
    (l : List Char) : Decidable (∀ c ∈ l, P c) := List.decidableBAll P l

/-! ### Patterns -/

/-- `[0-9a-fA-F]`. -/
def isHex (c : Char) : Bool := c.isDigit || ('a' ≤ c && c ≤ 'f') || ('A' ≤ c && c ≤ 'F')

/-- `[0-9a-z]`. -/
def isPodChar (c : Char) : Bool := c.isDigit || c.isLower

/-- `\d`. -/
def digit : Regex Char := sat letters.isDigit

/-- `_HEX_BLOB_RE`. -/
def hexBlob : Regex Char := wholeWord letters.isWord 8 isHex

/-- The pattern of a timestamp with the letters between its day and hour, and at its end. -/
def timestamp (between zulu : Char → Bool) : Regex Char :=
  seqs [wordEdge letters.isWord, exactly 4 (digit letters), chr '-', exactly 2 (digit letters),
    chr '-', exactly 2 (digit letters), sat between, exactly 2 (digit letters), chr ':',
    exactly 2 (digit letters), chr ':', exactly 2 (digit letters),
    opt (seqs [chr '.', plus (digit letters)]),
    opt (alt (sat zulu) (seqs [sat fun c => c = '+' || c = '-', exactly 2 (digit letters),
      opt (chr ':'), exactly 2 (digit letters)])),
    wordEdge letters.isWord]

/-- `_ISO_TIMESTAMP_RE`. -/
def isoTimestamp : Regex Char := timestamp letters (fun c => c = 'T' || c = ' ') fun c => c = 'Z'

/-- `_LONG_NUMBER_RE`. -/
def longNumber : Regex Char := wholeWord letters.isWord 4 letters.isDigit

/-- `_WHITESPACE_RE`. -/
def whitespace : Regex Char := plus (sat isSpace)

/-- The pattern of a suffix behind a letter, with the letters it has. -/
def suffix (test : Char → Bool) : Regex Char :=
  seqs [edge fun before _ => before.any Char.isAlpha, chr '-', atLeast 4 (sat test),
    wordEdge letters.isWord]

/-- `_POD_SUFFIX_RE`. -/
def podSuffix : Regex Char := suffix letters isPodChar

/-! ### Symptoms and signatures -/

/-- `normalise_symptom`. -/
def normaliseSymptom (text : Option String) : String :=
  match text with
  | none => ""
  | some text =>
    let cleaned := strip text
    if cleaned = "" then ""
    else
      let cleaned := resub (isoTimestamp letters) "<ts>" cleaned
      let cleaned := resub (hexBlob letters) "<hex>" cleaned
      let cleaned := resub (podSuffix letters) "" cleaned
      let cleaned := resub (longNumber letters) "<n>" cleaned
      letters.lower (strip (resub whitespace " " cleaned))

/-- The string that `compute_signature` hashes. -/
def canonical (alertType : String) (service symptomText : Option String) : String :=
  "|".intercalate [letters.lower (strip alertType), letters.lower (strip (service.getD "")),
    normaliseSymptom letters symptomText]

/-- `compute_signature`: the first sixteen bytes of the digest. -/
def computeSignature (py : Py) (alertType : String) (service symptomText : Option String) :
    String :=
  String.ofList ((py.sha256 (canonical letters alertType service symptomText)).toList.take 32)

/-- What is documented of the letters: those of ASCII, the white space, and the case table, in which
two letters beyond ASCII, the dotted capital I and the sign of the kelvin, have letters of ASCII as
their lower case. -/
structure Letters.Lawful : Prop where
  isWord_ascii : ∀ c : Char, c.toNat < 128 → letters.isWord c = (c.isAlphanum || c == '_')
  isDigit_ascii : ∀ c : Char, c.toNat < 128 → letters.isDigit c = c.isDigit
  isWord_of_isDigit : ∀ c, letters.isDigit c = true → letters.isWord c = true
  isWord_of_isSpace : ∀ c, isSpace c = true → letters.isWord c = false
  lowerAt_ascii : ∀ before after (c : Char), c.toNat < 128 →
    letters.lowerAt before after c = [c.toLower]
  lowerAt_space : ∀ before after c, isSpace c = true → letters.lowerAt before after c = [c]
  lowerAt_not_space : ∀ before after c, isSpace c = false →
    letters.lowerAt before after c ≠ [] ∧ ∀ d ∈ letters.lowerAt before after c, isSpace d = false
  lowerAt_ne_bar : ∀ before after c, '|' ∈ letters.lowerAt before after c → c = '|'
  lowerAt_lowerAt : ∀ before after c before' after', ∀ d ∈ letters.lowerAt before after c,
    letters.lowerAt before' after' d = [d]
  lowerAt_one : ∀ before after (c : Char), c ≠ '\u0130' → c ≠ '\u212A' →
    ∃ d, letters.lowerAt before after c = [d] ∧ letters.isWord d = letters.isWord c ∧
      letters.isDigit d = letters.isDigit c ∧ (128 ≤ c.toNat → 128 ≤ d.toNat)
  lowerAt_toLower : ∀ before after (c : Char),
    letters.lowerAt (before.map Char.toLower) (after.map Char.toLower) c.toLower =
      letters.lowerAt before after c

end Omniscience.Clustering
