import Omniscience.Retrieval.SymptomCases

/-!
# Normal forms of symptoms

A symptom that is normalised once more changes unless the patterns find nothing in it (`Settled`).
Of the four patterns only the one for suffixes can find something in a normal form, unless a letter
of the symptom has a lower case that ends a word: a suffix is left if it has a capital, or if the
suffix before it is cut.
-/

namespace Omniscience.Clustering

open GraphRag (isSpace strip)
open List
open Regex (sat edge chr seqs opt alt plus exactly atLeast wordEdge wholeWord search sub squeeze
  Squeezed mapWords onWord separates Place)
open Words (words wordsFrom)

variable {letters L : Letters}

/-! ### Tidy texts -/

/-- The text without the white space around it. -/
def trim (l : List Char) : List Char := (l.dropWhile isSpace).rdropWhile isSpace

theorem strip_eq (text : String) : strip text = String.ofList (trim text.toList) := rfl

/-- The lower case of the letter is the letter. -/
def Fixed (letters : Letters) (c : Char) : Prop :=
  ∀ before after, letters.lowerAt before after c = [c]

/-- A text without white space around it and with single blanks, in lower case. -/
structure Tidy (letters : Letters) (l : List Char) : Prop where
  trimmed : trim l = l
  squeezed : Squeezed isSpace ' ' false l
  fixed : ∀ c ∈ l, Fixed letters c

variable {l : List Char}

theorem lowerFrom_of_fixed (h : ∀ c ∈ l, Fixed L c) (before : List Char) :
    L.lowerFrom before l = l := by
  induction l generalizing before with
  | nil => rfl
  | cons c l ih =>
    rw [Letters.lowerFrom, h c mem_cons_self, ih fun d hd => h d (mem_cons_of_mem c hd)]
    rfl

theorem fixed_of_mem_lowerFrom (hlaw : L.Lawful) {before l : List Char} {d : Char}
    (h : d ∈ L.lowerFrom before l) : Fixed L d := by
  induction l generalizing before with
  | nil => exact absurd h not_mem_nil
  | cons c l ih =>
    obtain h | h := mem_append.1 h
    · exact fun before' after' => hlaw.lowerAt_lowerAt _ _ _ _ _ d h
    · exact ih h

theorem squeezed_lowerFrom (hlaw : L.Lawful) {inRun : Bool} (h : Squeezed isSpace ' ' inRun l)
    (before : List Char) : Squeezed isSpace ' ' inRun (L.lowerFrom before l) := by
  induction l generalizing inRun before with
  | nil => trivial
  | cons c l ih =>
    have hrest := ih h.2 (c :: before)
    rw [Letters.lowerFrom]
    cases hc : isSpace c with
    | true =>
      rw [hlaw.lowerAt_space _ _ c hc]
      exact ⟨h.1, hrest⟩
    | false =>
      obtain ⟨hne, hspace⟩ := hlaw.lowerAt_not_space before l c hc
      rw [hc] at hrest
      exact Regex.squeezed_append hne hspace hrest

theorem dropWhile_lowerFrom (hlaw : L.Lawful) (h : l.dropWhile isSpace = l)
    (before : List Char) :
    (L.lowerFrom before l).dropWhile isSpace = L.lowerFrom before l := by
  cases l with
  | nil => rfl
  | cons c l =>
    cases hc : isSpace c with
    | true =>
      rw [dropWhile_cons_of_pos hc] at h
      have hlength := (dropWhile_suffix isSpace (l := l)).length_le
      rw [h] at hlength
      exact absurd hlength (Nat.not_succ_le_self _)
    | false =>
      obtain ⟨hne, hspace⟩ := hlaw.lowerAt_not_space before l c hc
      rw [Letters.lowerFrom]
      cases hlower : L.lowerAt before l c with
      | nil => exact absurd hlower hne
      | cons d ds =>
        have hd := hspace d (by rw [hlower]; exact mem_cons_self)
        exact dropWhile_cons_of_neg (by simp [hd])

theorem exists_lowerFrom_append (L : Letters) (before l : List Char) (c : Char) :
    ∃ w before', L.lowerFrom before (l ++ [c]) = w ++ L.lowerAt before' [] c := by
  induction l generalizing before with
  | nil => exact ⟨[], before, by simp [Letters.lowerFrom]⟩
  | cons d l ih =>
    obtain ⟨w, before', hw⟩ := ih (d :: before)
    refine ⟨L.lowerAt before (l ++ [c]) d ++ w, before', ?_⟩
    rw [cons_append, Letters.lowerFrom, hw, append_assoc]

theorem rdropWhile_lowerFrom (hlaw : L.Lawful) (h : l.rdropWhile isSpace = l)
    (before : List Char) :
    (L.lowerFrom before l).rdropWhile isSpace = L.lowerFrom before l := by
  obtain rfl | ⟨l, c, rfl⟩ := eq_nil_or_concat' l
  · rfl
  · have hc : isSpace c = false := by
      have hlast := rdropWhile_eq_self_iff.1 h (by simp)
      simpa using hlast
    obtain ⟨w, before', hw⟩ := exists_lowerFrom_append L before l c
    obtain ⟨hne, hspace⟩ := hlaw.lowerAt_not_space before' [] c hc
    rw [hw]
    obtain ⟨ds, d, hd⟩ := (eq_nil_or_concat' _).resolve_left hne
    have hd' := hspace d (by rw [hd]; simp)
    rw [hd, ← append_assoc, rdropWhile_concat_neg _ _ _ (by simp [hd'])]

theorem dropWhile_trim (l : List Char) : (trim l).dropWhile isSpace = trim l := by
  rw [trim]
  cases hdrop : l.dropWhile isSpace with
  | nil => rfl
  | cons c rest =>
    have hc := head?_dropWhile_not isSpace l
    rw [hdrop] at hc
    have hc : isSpace c = false := by simpa using hc
    obtain ⟨w, hw⟩ := rdropWhile_prefix isSpace (l := c :: rest)
    cases htrim : (c :: rest).rdropWhile isSpace with
    | nil => rfl
    | cons d ds =>
      rw [htrim] at hw
      obtain ⟨rfl, -⟩ := cons.inj hw
      exact dropWhile_cons_of_neg (by simp [hc])

theorem rdropWhile_trim (l : List Char) : (trim l).rdropWhile isSpace = trim l :=
  rdropWhile_idempotent isSpace _

theorem squeezed_trim (h : Squeezed isSpace ' ' false l) : Squeezed isSpace ' ' false (trim l) := by
  obtain ⟨w, hw⟩ := rdropWhile_prefix isSpace (l := l.dropWhile isSpace)
  have hdrop := h.dropWhile false
  rw [← hw] at hdrop
  exact hdrop.of_append

theorem tidy_lower (hlaw : L.Lawful) (l : List Char) :
    Tidy L (L.lowerFrom [] (trim (sub whitespace [' '] l))) where
  trimmed := by
    rw [trim, dropWhile_lowerFrom hlaw (dropWhile_trim _),
      rdropWhile_lowerFrom hlaw (rdropWhile_trim _)]
  squeezed := by
    refine squeezed_lowerFrom hlaw (squeezed_trim ?_) []
    rw [whitespace, Regex.sub_plus_sat]
    exact Regex.squeezed_squeeze (by decide) false l
  fixed := fun c hc => fixed_of_mem_lowerFrom hlaw hc

/-! ### What is left to find -/

/-- The patterns find nothing in the text. -/
structure Settled (letters : Letters) (l : List Char) : Prop where
  timestamp : search (isoTimestamp letters) l = none
  blob : search (hexBlob letters) l = none
  suffix : search (podSuffix letters) l = none
  number : search (longNumber letters) l = none

/-- The four substitutions. -/
def replaced (letters : Letters) (l : List Char) : List Char :=
  sub (longNumber letters) "<n>".toList (sub (podSuffix letters) []
    (sub (hexBlob letters) "<hex>".toList (sub (isoTimestamp letters) "<ts>".toList l)))

theorem toList_normaliseSymptom (L : Letters) (text : String) :
    (normaliseSymptom L (some text)).toList =
      L.lowerFrom [] (trim (sub whitespace [' ']
        (replaced L (trim text.toList)))) := by
  rw [normaliseSymptom]
  dsimp only
  split_ifs with hempty
  · rw [strip_eq, ← String.toList_eq_nil_iff, String.toList_ofList] at hempty
    rw [hempty]
    rfl
  · simp [resub, strip_eq, Letters.lower, replaced, String.toList_ofList]

theorem tidy_normaliseSymptom (hlaw : L.Lawful) (text : String) :
    Tidy L (normaliseSymptom L (some text)).toList := by
  rw [toList_normaliseSymptom]
  exact tidy_lower hlaw _

theorem replaced_of_settled (h : Settled L l) : replaced L l = l := by
  rw [replaced, Regex.sub_of_search_eq_none h.timestamp, Regex.sub_of_search_eq_none h.blob,
    Regex.sub_of_search_eq_none h.suffix, Regex.sub_of_search_eq_none h.number]

theorem shorter (L : Letters) :
    ("<ts>".toList.length < (isoTimestamp L).width ∧
      "<hex>".toList.length < (hexBlob L).width) ∧
      ([] : List Char).length < (podSuffix L).width ∧
      "<n>".toList.length < (longNumber L).width := by
  have hts : (isoTimestamp L).width = 19 := by
    simp [isoTimestamp, timestamp, digit, chr, wordEdge]
  have hhex : (hexBlob L).width = 8 := by simp [hexBlob, wholeWord, wordEdge]
  have hpod : (podSuffix L).width = 5 := by simp [podSuffix, suffix, chr, wordEdge]
  have hlong : (longNumber L).width = 4 := by simp [longNumber, wholeWord, wordEdge]
  rw [hts, hhex, hpod, hlong]
  decide

theorem length_replaced_lt (h : ¬ Settled L l) : (replaced L l).length < l.length := by
  obtain ⟨⟨hts, hhex⟩, hpod, hlong⟩ := shorter L
  have hts := Regex.shorter_of_width hts
  have hhex := Regex.shorter_of_width hhex
  have hpod := Regex.shorter_of_width hpod
  have hlong := Regex.shorter_of_width hlong
  -- the first pattern that finds something makes the text shorter
  by_cases h₁ : search (isoTimestamp L) l = none
  · rw [replaced, Regex.sub_of_search_eq_none h₁]
    by_cases h₂ : search (hexBlob L) l = none
    · rw [Regex.sub_of_search_eq_none h₂]
      by_cases h₃ : search (podSuffix L) l = none
      · rw [Regex.sub_of_search_eq_none h₃]
        exact Regex.length_sub_lt hlong fun h₄ => h ⟨h₁, h₂, h₃, h₄⟩
      · exact (Regex.length_sub_le hlong).trans_lt (Regex.length_sub_lt hpod h₃)
    · exact ((Regex.length_sub_le hlong).trans (Regex.length_sub_le hpod)).trans_lt
        (Regex.length_sub_lt hhex h₂)
  · exact ((Regex.length_sub_le hlong).trans ((Regex.length_sub_le hpod).trans
      (Regex.length_sub_le hhex))).trans_lt (Regex.length_sub_lt hts h₁)

theorem length_trim_le (l : List Char) : (trim l).length ≤ l.length :=
  ( rdropWhile_prefix isSpace _).length_le.trans (dropWhile_suffix isSpace).length_le

variable {c : Char}

theorem mem_of_mem_trim (h : c ∈ trim l) : c ∈ l :=
  (dropWhile_suffix isSpace).subset (( rdropWhile_prefix isSpace _).subset h)

theorem fixed_ascii (hlaw : L.Lawful) (hascii : c.toNat < 128) (hlower : c.toLower = c) :
    Fixed L c := by
  intro before after
  rw [hlaw.lowerAt_ascii before after c hascii, hlower]

/-- The marks that replace what is found. -/
def marks : List Char := "<ts>".toList ++ "<hex>".toList ++ "<n>".toList

theorem mem_replaced (hc : c ∈ replaced L l) : c ∈ l ∨ c ∈ marks := by
  obtain hc | hc := Regex.mem_sub hc
  · obtain hc | hc := Regex.mem_sub hc
    · obtain hc | hc := Regex.mem_sub hc
      · obtain hc | hc := Regex.mem_sub hc
        · exact .inl hc
        · exact .inr (mem_append_left _ (mem_append_left _ hc))
      · exact .inr (mem_append_left _ (mem_append_right _ hc))
    · exact absurd hc not_mem_nil
  · exact .inr (mem_append_right _ hc)

theorem fixed_of_mem_replaced (hlaw : L.Lawful) (h : ∀ c ∈ l, Fixed L c)
    (hc : c ∈ replaced L l) : Fixed L c := by
  have hmarks : ∀ c ∈ marks, c.toNat < 128 ∧ c.toLower = c := by decide
  obtain hc | hc := mem_replaced hc
  · exact h c hc
  · exact fixed_ascii hlaw (hmarks c hc).1 (hmarks c hc).2

/-- **A symptom is in normal form exactly if the patterns find nothing in its normal form.** -/
theorem idempotent_iff_settled (hlaw : L.Lawful) (text : String) :
    normaliseSymptom L (some (normaliseSymptom L (some text))) =
        normaliseSymptom L (some text) ↔
      Settled L (normaliseSymptom L (some text)).toList := by
  have htidy := tidy_normaliseSymptom hlaw text
  generalize normaliseSymptom L (some text) = n at htidy
  rw [← String.toList_inj, toList_normaliseSymptom, htidy.trimmed]
  have hfixed : ∀ c ∈ trim (sub whitespace [' '] (replaced L n.toList)), Fixed L c := by
    intro c hc
    obtain hc | hc := Regex.mem_sub (mem_of_mem_trim hc)
    · exact fixed_of_mem_replaced hlaw htidy.fixed hc
    · rw [mem_singleton.1 hc]
      exact fixed_ascii hlaw (by decide) (by decide)
  rw [lowerFrom_of_fixed hfixed, whitespace, Regex.sub_plus_sat]
  constructor
  · intro h
    by_contra hsettled
    have hlt := length_replaced_lt hsettled
    have hsqueeze : (squeeze isSpace [' '] false (replaced L n.toList)).length ≤
        (replaced L n.toList).length :=
      Regex.length_squeeze_le (by decide) false _
    have hle := (length_trim_le _).trans hsqueeze
    rw [h] at hle
    exact absurd hle (Nat.not_le_of_lt hlt)
  · intro h
    rw [replaced_of_settled h, Regex.squeeze_of_squeezed htidy.squeezed, htidy.trimmed]

/-! ### Words of a normal form -/

/-- The second letter is the lower case of the first, as the patterns see it. -/
structure Lowers (letters : Letters) (c d : Char) : Prop where
  isWord : letters.isWord d = letters.isWord c
  isDigit : letters.isDigit d = letters.isDigit c
  isHex : isHex d = isHex c
  isAlpha : d.isAlpha = c.isAlpha
  isPodChar : isPodChar d = c.isAlphanum
  hyphen : d = '-' ↔ c = '-'

/-- The lower case of every letter is one letter, and one of ASCII only for a letter of ASCII. -/
def Tame (l : List Char) : Prop := ∀ c ∈ l, c ≠ '\u0130' ∧ c ≠ '\u212A'

theorem isPodChar_iff :
    isPodChar c = true ↔ (48 ≤ c.toNat ∧ c.toNat ≤ 57) ∨ 97 ≤ c.toNat ∧ c.toNat ≤ 122 := by
  rw [isPodChar, Bool.or_eq_true, isDigit_iff, isLower_iff]

theorem isAlphanum_iff :
    c.isAlphanum = true ↔ ((65 ≤ c.toNat ∧ c.toNat ≤ 90) ∨ 97 ≤ c.toNat ∧ c.toNat ≤ 122) ∨
      48 ≤ c.toNat ∧ c.toNat ≤ 57 := by
  rw [Char.isAlphanum, Bool.or_eq_true, isAlpha_iff, isDigit_iff]

theorem isPodChar_toLower (c : Char) : isPodChar c.toLower = c.isAlphanum := by
  rw [Bool.eq_iff_iff, isPodChar_iff, isAlphanum_iff, toNat_toLower]
  split_ifs <;> omega

theorem exists_lowers (hlaw : L.Lawful) (htame : c ≠ '\u0130' ∧ c ≠ '\u212A')
    (before after : List Char) :
    ∃ d, L.lowerAt before after c = [d] ∧ Lowers L c d := by
  by_cases hascii : c.toNat < 128
  · exact ⟨c.toLower, hlaw.lowerAt_ascii before after c hascii, isWord_toLower hlaw c,
      isDigit_toLower' hlaw c, isHex_toLower c, isAlpha_toLower c, isPodChar_toLower c,
      eq_toLower_iff rfl c⟩
  · obtain ⟨d, hd, hword, hdigit, hnat⟩ := hlaw.lowerAt_one before after c htame.1 htame.2
    have hc := Nat.le_of_not_lt hascii
    have hd' := hnat hc
    refine ⟨d, hd, hword, hdigit, ?_, ?_, ?_, ?_⟩
    · rw [Bool.eq_iff_iff, isHex_iff, isHex_iff]
      omega
    · rw [Bool.eq_iff_iff, isAlpha_iff, isAlpha_iff]
      omega
    · rw [Bool.eq_iff_iff, isPodChar_iff, isAlphanum_iff]
      omega
    · have hhyphen : '-'.toNat = 45 := rfl
      rw [eq_iff_toNat, eq_iff_toNat, hhyphen]
      omega

theorem forall₂_lowerFrom (hlaw : L.Lawful) (h : Tame l) (before : List Char) :
    List.Forall₂ (Lowers L) l (L.lowerFrom before l) := by
  induction l generalizing before with
  | nil => exact .nil
  | cons c l ih =>
    obtain ⟨d, hd, hlowers⟩ := exists_lowers hlaw (h c mem_cons_self) before l
    rw [Letters.lowerFrom, hd]
    exact .cons hlowers (ih (fun e he => h e (mem_cons_of_mem c he)) (c :: before))

theorem exists_word_of_lower (hlaw : L.Lawful) (h : Tame l) {w : List Char}
    (hw : w ∈ words (separates L.isWord) (L.lowerFrom [] l)) :
    ∃ w₀ ∈ words (separates L.isWord) l, List.Forall₂ (Lowers L) w₀ w := by
  have hwords : List.Forall₂ (List.Forall₂ (Lowers L)) (words (separates L.isWord) l)
      (words (separates L.isWord) (L.lowerFrom [] l)) :=
    Words.forall₂_words (fun c d hcd => (congrArg not hcd.isWord).symm)
      (forall₂_lowerFrom hlaw h [])
  obtain ⟨i, hi, rfl⟩ := mem_iff_getElem.1 hw
  have hi₀ := hwords.length_eq.symm ▸ hi
  exact ⟨_, getElem_mem hi₀, hwords.get hi₀ hi⟩

theorem separates_of_isSpace (hlaw : L.Lawful) (c : Char) (h : isSpace c = true) :
    separates L.isWord c = true := by
  rw [separates, hlaw.isWord_of_isSpace c h]
  rfl

theorem words_trim (hlaw : L.Lawful) (l : List Char) :
    words (separates L.isWord) (trim l) = words (separates L.isWord) l := by
  have hspace := separates_of_isSpace hlaw
  have hsplit : (l.dropWhile isSpace).rdropWhile isSpace ++
      (l.dropWhile isSpace).rtakeWhile isSpace = l.dropWhile isSpace :=
    rdropWhile_append_rtakeWhile
  calc words (separates L.isWord) (trim l)
      = words (separates L.isWord) (trim l ++ (l.dropWhile isSpace).rtakeWhile isSpace) :=
        (Words.words_append_seps fun c hc => hspace c (mem_rtakeWhile_imp hc)).symm
    _ = words (separates L.isWord) (l.dropWhile isSpace) := by rw [trim, hsplit]
    _ = words (separates L.isWord) l := Words.words_dropWhile hspace l

theorem words_whitespace (hlaw : L.Lawful) (l : List Char) :
    words (separates L.isWord) (sub whitespace [' '] l) =
      words (separates L.isWord) l := by
  rw [whitespace, Regex.sub_plus_sat]
  exact Regex.words_squeeze (separates_of_isSpace hlaw) (by decide) [] l false nofun

/-! ### Suffixes -/

theorem isWord_of_isAlphanum (hlaw : L.Lawful) (h : c.isAlphanum = true) :
    L.isWord c = true := by
  have hascii : c.toNat < 128 := by
    rw [isAlphanum_iff] at h
    omega
  rw [hlaw.isWord_ascii c hascii, h]
  rfl

theorem isAlphanum_of_isPodChar (h : isPodChar c = true) : c.isAlphanum = true := by
  rw [isPodChar_iff] at h
  rw [isAlphanum_iff]
  omega

variable {test : Char → Bool}

theorem matchAt_suffix (htest : ∀ c, test c = true → L.isWord c = true) (p : Place Char) :
    Regex.matchAt (suffix L test) p =
      if p.before.head?.any Char.isAlpha = true ∧ p.after.head? = some '-' ∧
          4 ≤ (p.after.tail.takeWhile L.isWord).length ∧
          ∀ c ∈ p.after.tail.takeWhile L.isWord, test c = true then
        some (p.move ('-' :: p.after.tail.takeWhile L.isWord)
          (p.after.tail.dropWhile L.isWord))
      else none := by
  have hseq : suffix L test = .seq (edge fun before _ => before.any Char.isAlpha)
        (.seq (chr '-') (.seq (atLeast 4 (sat test)) (wordEdge L.isWord))) := rfl
  refine Regex.matchAt_eq_ite (fun q => ?_) fun hcond => ?_
  · rw [hseq, Regex.mem_run_seq]
    constructor
    · rintro ⟨m, hm, hq⟩
      obtain ⟨hbefore, rfl⟩ := Regex.mem_run_edge.1 hm
      obtain ⟨m', hm', hq⟩ := Regex.mem_run_seq.1 hq
      obtain ⟨c, rest, hafter, hc, rfl⟩ := Regex.mem_run_sat.1 hm'
      obtain ⟨hlength, hw, rfl⟩ :=
        (Regex.mem_run_atLeast_wordEdge htest (Nat.succ_pos 3)).1 hq
      obtain rfl := of_decide_eq_true hc
      rw [hafter]
      exact ⟨⟨hbefore, rfl, hlength, hw⟩, by simp [Place.move]⟩
    · rintro ⟨⟨hbefore, hhead, hlength, hw⟩, rfl⟩
      cases hafter : p.after with
      | nil =>
        rw [hafter] at hhead
        cases hhead
      | cons c rest =>
        rw [hafter] at hhead hlength hw
        obtain rfl := Option.some.inj hhead
        refine ⟨p, Regex.mem_run_edge.2 ⟨hbefore, rfl⟩, Regex.mem_run_seq.2 ⟨p.move ['-'] rest,
          Regex.mem_run_sat.2 ⟨'-', rest, hafter, by decide, rfl⟩, ?_⟩⟩
        refine (Regex.mem_run_atLeast_wordEdge htest (Nat.succ_pos 3)).2 ⟨hlength, hw, ?_⟩
        simp [Place.move]
  · have hlength : (p.after.tail.dropWhile L.isWord).length ≤ p.after.tail.length :=
      (dropWhile_suffix L.isWord).length_le
    cases hafter : p.after with
    | nil =>
      rw [hafter] at hcond
      cases hcond.2.1
    | cons c rest =>
      rw [hafter] at hlength
      exact Nat.lt_succ_of_le hlength

theorem subset_append {u v w : List (List Char)} (h : v ⊆ w) : u ++ v ⊆ u ++ w :=
  append_subset.2 ⟨subset_append_left u w, List.Subset.trans h (subset_append_right u w)⟩

theorem words_subFrom_suffix (htest : ∀ c, test c = true → L.isWord c = true)
    (hhyphen : L.isWord '-' = false) (n : ℕ) (word before after : List Char) :
    wordsFrom (separates L.isWord) word
        (Regex.subFrom (suffix L test) [] n ⟨before, after, []⟩) ⊆
      wordsFrom (separates L.isWord) word after := by
  have hsep : separates L.isWord '-' = true := by
    rw [separates, hhyphen]
    rfl
  induction n generalizing word before after with
  | zero => exact List.Subset.refl _
  | succ n ih =>
    rw [Regex.subFrom, matchAt_suffix htest]
    split_ifs with hcond
    · cases after with
      | nil => cases hcond.2.1
      | cons c rest =>
        obtain rfl := Option.some.inj hcond.2.1
        refine List.Subset.trans (ih word _ _) ?_
        rw [Words.wordsFrom_of_sep hsep]
        -- the word behind the hyphen is left out
        have hsplit := takeWhile_append_dropWhile (p := L.isWord) (l := rest)
        have hnot := head?_dropWhile_not L.isWord rest
        dsimp only [Place.move, tail_cons]
        cases hdrop : rest.dropWhile L.isWord with
        | nil => exact subset_append_left _ _
        | cons d rest' =>
          rw [hdrop] at hnot hsplit
          have hd : separates L.isWord d = true := by simpa [separates] using hnot
          rw [Words.wordsFrom_of_sep hd, ← hsplit, Words.words_append_sep hd]
          exact subset_append (subset_append_right _ _)
    · cases after with
      | nil => exact List.Subset.refl _
      | cons c rest =>
        dsimp only
        cases hc : separates L.isWord c with
        | true =>
          rw [Words.wordsFrom_of_sep hc, Words.wordsFrom_of_sep hc]
          exact subset_append (ih [] _ _)
        | false =>
          rw [Words.wordsFrom_of_not_sep hc, Words.wordsFrom_of_not_sep hc]
          exact ih _ _ _

/-! ### Blobs and numbers -/

theorem onWord_nil {k : ℕ} (hk : 0 < k) (test : Char → Bool) (repl : List Char) :
    onWord k test repl [] = [] := if_neg fun h => Nat.not_le_of_lt hk h.1

theorem mem_words_sub (htest : ∀ c, test c = true → L.isWord c = true) {k : ℕ} (hk : 0 < k)
    {repl l w : List Char}
    (h : w ∈ words (separates L.isWord) (sub (wholeWord L.isWord k test) repl l)) :
    (w ∈ words (separates L.isWord) l ∧ ¬ (k ≤ w.length ∧ ∀ c ∈ w, test c = true)) ∨
      w ∈ words (separates L.isWord) repl := by
  rw [Regex.sub_wholeWord htest hk, Regex.words_mapWords (onWord_nil hk test repl)] at h
  obtain ⟨v, hv, hw⟩ := mem_flatMap.1 h
  rw [onWord] at hw
  split_ifs at hw with hcond
  · exact .inr hw
  · rw [Words.words_of_isWord (Words.isWord_of_mem_words hv), mem_singleton] at hw
    subst hw
    exact .inl ⟨hv, hcond⟩

theorem words_mark (hlaw : L.Lawful) {mark : List Char}
    (hne : mark ≠ []) (hmark : ∀ c ∈ mark, c.isAlphanum = true) :
    words (separates L.isWord) ('<' :: (mark ++ ['>'])) = [mark] := by
  have hangle : ∀ c : Char, c = '<' ∨ c = '>' → separates L.isWord c = true := by
    rintro c (rfl | rfl)
    · rw [separates, hlaw.isWord_ascii _ (by decide)]
      rfl
    · rw [separates, hlaw.isWord_ascii _ (by decide)]
      rfl
  rw [Words.words_of_sep (hangle _ (.inl rfl)),
    Words.words_append_seps fun c hc => hangle c (.inr (mem_singleton.1 hc)),
    Words.words_of_isWord ⟨hne, fun c hc => ?_⟩]
  rw [separates, isWord_of_isAlphanum hlaw (hmark c hc)]
  rfl

theorem isWord_of_isHex (hlaw : L.Lawful) (h : isHex c = true) : L.isWord c = true := by
  refine isWord_of_isAlphanum hlaw ?_
  rw [isHex_iff] at h
  rw [isAlphanum_iff]
  omega

/-- What the pattern for suffixes is given. -/
def blobsOut (letters : Letters) (l : List Char) : List Char :=
  sub (hexBlob letters) "<hex>".toList (sub (isoTimestamp letters) "<ts>".toList l)

/-- What the pattern for numbers is given. -/
def suffixesOut (letters : Letters) (l : List Char) : List Char :=
  sub (podSuffix letters) [] (blobsOut letters l)

theorem replaced_eq (L : Letters) (l : List Char) :
    replaced L l = sub (longNumber L) "<n>".toList (suffixesOut L l) := rfl

theorem words_replaced (hlaw : L.Lawful) {l w : List Char}
    (h : w ∈ words (separates L.isWord) (replaced L l)) :
    ¬ (4 ≤ w.length ∧ ∀ c ∈ w, L.isDigit c = true) ∧
      ¬ (8 ≤ w.length ∧ ∀ c ∈ w, isHex c = true) := by
  have hhyphen : L.isWord '-' = false := hlaw.isWord_ascii _ (by decide)
  rw [replaced_eq] at h
  obtain ⟨hw, hnumber⟩ | hw := mem_words_sub hlaw.isWord_of_isDigit (Nat.succ_pos 3) h
  · refine ⟨hnumber, ?_⟩
    have hpod := words_subFrom_suffix
      (fun c hc => isWord_of_isAlphanum hlaw (isAlphanum_of_isPodChar hc)) hhyphen _ [] [] _ hw
    obtain ⟨-, hblob⟩ | hw := mem_words_sub (fun c => isWord_of_isHex hlaw) (Nat.succ_pos 7) hpod
    · exact hblob
    · have hhex : "<hex>".toList = '<' :: ("hex".toList ++ ['>']) := rfl
      rw [hhex, words_mark hlaw (by decide) (by decide), mem_singleton] at hw
      subst hw
      exact fun hlong => absurd hlong.1 (by decide)
  · have hn : "<n>".toList = '<' :: ("n".toList ++ ['>']) := rfl
    rw [hn, words_mark hlaw (by decide) (by decide), mem_singleton] at hw
    subst hw
    exact ⟨fun hlong => absurd hlong.1 (by decide), fun hlong => absurd hlong.1 (by decide)⟩

theorem tame_replaced (h : Tame l) : Tame (replaced L l) := by
  have hmarks : ∀ c ∈ marks, c ≠ '\u0130' ∧ c ≠ '\u212A' := by decide
  exact fun c hc => (mem_replaced hc).elim (h c) (hmarks c)

theorem tame_trim_whitespace (h : Tame l) : Tame (trim (sub whitespace [' '] l)) := by
  intro c hc
  obtain hc | hc := Regex.mem_sub (mem_of_mem_trim hc)
  · exact h c hc
  · rw [mem_singleton.1 hc]
    decide

theorem forall_of_forall₂ {test test' : Char → Bool} {v w : List Char}
    (h : List.Forall₂ (Lowers L) v w) (htest : ∀ c d, Lowers L c d → test d = test' c) :
    (∀ d ∈ w, test d = true) ↔ ∀ c ∈ v, test' c = true := by
  induction h with
  | nil => exact ⟨fun _ => nofun, fun _ => nofun⟩
  | cons hcd _ ih => rw [forall_mem_cons, forall_mem_cons, ih, htest _ _ hcd]

/-- **In a normal form of a tame symptom no blob and no long number is left.** -/
theorem words_normalForm (hlaw : L.Lawful) (h : Tame l) {w : List Char}
    (hw : w ∈ words (separates L.isWord) (L.lowerFrom [] (trim (sub whitespace [' '] (replaced L l)))))
    :
    ¬ (4 ≤ w.length ∧ ∀ c ∈ w, L.isDigit c = true) ∧
      ¬ (8 ≤ w.length ∧ ∀ c ∈ w, isHex c = true) := by
  obtain ⟨v, hv, hvw⟩ := exists_word_of_lower hlaw (tame_trim_whitespace (tame_replaced h)) hw
  rw [words_trim hlaw, words_whitespace hlaw] at hv
  rw [← hvw.length_eq, forall_of_forall₂ hvw fun c d hcd => hcd.isDigit,
    forall_of_forall₂ hvw fun c d hcd => hcd.isHex]
  exact words_replaced hlaw hv

theorem search_timestamp_eq_none (hlaw : L.Lawful) (h : search (longNumber L) l = none) :
    search (isoTimestamp L) l = none := by
  rw [← Option.not_isSome_iff_eq_none, Regex.search_isSome_iff] at h ⊢
  rintro ⟨u, v, rfl, hne, hmatch⟩
  refine h ⟨u, v, rfl, hne, ?_⟩
  obtain ⟨q, hq⟩ := Option.isSome_iff_exists.1 hmatch
  obtain ⟨m, hm, hq⟩ := Regex.mem_run_seq.1 (Regex.matchAt_eq_some_imp hq).1
  obtain ⟨hedge, rfl⟩ := Regex.mem_run_edge.1 hm
  obtain ⟨m, hm, hq⟩ := Regex.mem_run_seq.1 hq
  obtain ⟨w, rest, rfl, hlength, hw, rfl⟩ := Regex.mem_run_exactly_sat.1 hm
  obtain ⟨m, hm, -⟩ := Regex.mem_run_seq.1 hq
  obtain ⟨c, rest', hrest, hc, -⟩ := Regex.mem_run_sat.1 hm
  obtain rfl := of_decide_eq_true hc
  have hrest : rest = '-' :: rest' := hrest
  subst hrest
  have hword : ∀ c ∈ w, L.isWord c = true := fun c hc => hlaw.isWord_of_isDigit c (hw c hc)
  have hhyphen : L.isWord '-' = false := hlaw.isWord_ascii _ (by decide)
  have htake : (w ++ '-' :: rest').takeWhile L.isWord = w := by
    rw [takeWhile_append_of_pos hword, takeWhile_cons_of_neg (by simp [hhyphen]), append_nil]
  have hfour : 4 ≤ ((w ++ '-' :: rest').takeWhile L.isWord).length := by
    rw [htake, hlength]
  have hbefore : u.reverse.head?.any L.isWord = false := by
    rw [Regex.any_head?_of_takeWhile (Nat.succ_pos 3) hfour] at hedge
    simpa using hedge
  rw [longNumber, Regex.matchAt_wholeWord hlaw.isWord_of_isDigit (Nat.succ_pos 3),
    if_pos ⟨hbefore, hfour, by rw [htake]; exact hw⟩]
  rfl

theorem settled_iff (hlaw : L.Lawful) {text : String} (h : Tame text.toList) :
    Settled L (normaliseSymptom L (some text)).toList ↔
      search (podSuffix L) (normaliseSymptom L (some text)).toList = none := by
  refine ⟨fun hsettled => hsettled.suffix, fun hsuffix => ?_⟩
  have htame : Tame (trim text.toList) := fun c hc => h c (mem_of_mem_trim hc)
  rw [toList_normaliseSymptom] at hsuffix ⊢
  have hnumber := Regex.search_wholeWord_eq_none hlaw.isWord_of_isDigit (Nat.succ_pos 3)
    fun w hw => (words_normalForm hlaw htame hw).1
  exact ⟨search_timestamp_eq_none hlaw hnumber,
    Regex.search_wholeWord_eq_none (fun c => isWord_of_isHex hlaw) (Nat.succ_pos 7)
      fun w hw => (words_normalForm hlaw htame hw).2, hsuffix, hnumber⟩

/-! ### Suffixes that are left -/

/-- The words behind a letter and a hyphen.  The flag says that a letter stands before the text. -/
def hyphened (letters : Letters) : Bool → List Char → List (List Char)
  | _, [] => []
  | behind, c :: l =>
    (if behind && c = '-' then [l.takeWhile letters.isWord] else []) ++
      hyphened letters c.isAlpha l

/-- Whether the last letter is one of ASCII. -/
def endsAlpha (behind : Bool) (u : List Char) : Bool :=
  match u.reverse with
  | [] => behind
  | c :: _ => c.isAlpha

theorem endsAlpha_cons (behind : Bool) (c : Char) (u : List Char) :
    endsAlpha behind (c :: u) = endsAlpha c.isAlpha u := by
  rw [endsAlpha, endsAlpha, reverse_cons]
  cases u.reverse with
  | nil => rfl
  | cons d ds => rfl

theorem mem_hyphened {behind : Bool} {l w : List Char} :
    w ∈ hyphened L behind l ↔ ∃ u rest, l = u ++ '-' :: rest ∧ endsAlpha behind u = true ∧
      w = rest.takeWhile L.isWord := by
  induction l generalizing behind with
  | nil =>
    refine ⟨fun h => absurd h not_mem_nil, ?_⟩
    rintro ⟨u, rest, hsplit, -⟩
    exact absurd (append_eq_nil_iff.1 hsplit.symm).2 (cons_ne_nil _ _)
  | cons c l ih =>
    rw [hyphened, mem_append, ih]
    constructor
    · rintro (h | ⟨u, rest, rfl, hu, rfl⟩)
      · split_ifs at h with hcond
        · rw [Bool.and_eq_true, decide_eq_true_eq] at hcond
          obtain ⟨rfl, rfl⟩ := hcond
          exact ⟨[], l, rfl, rfl, mem_singleton.1 h⟩
        · exact absurd h not_mem_nil
      · exact ⟨c :: u, rest, rfl, (endsAlpha_cons behind c u).trans hu, rfl⟩
    · rintro ⟨u, rest, hsplit, hu, rfl⟩
      cases u with
      | nil =>
        obtain ⟨rfl, rfl⟩ := cons.inj hsplit
        have hbehind : behind = true := hu
        left
        rw [hbehind]
        exact mem_singleton_self _
      | cons d u =>
        obtain ⟨rfl, rfl⟩ := cons.inj hsplit
        exact .inr ⟨u, rest, rfl, (endsAlpha_cons behind c u).symm.trans hu, rfl⟩

theorem search_suffix_eq_none (htest : ∀ c, test c = true → L.isWord c = true) :
    search (suffix L test) l = none ↔
      ∀ w ∈ hyphened L false l, ¬ (4 ≤ w.length ∧ ∀ c ∈ w, test c = true) := by
  have hends : ∀ u : List Char, u.reverse.head?.any Char.isAlpha = endsAlpha false u := by
    intro u
    rw [endsAlpha]
    cases u.reverse with
    | nil => rfl
    | cons c cs => rfl
  rw [← Option.not_isSome_iff_eq_none, Regex.search_isSome_iff]
  constructor
  · rintro h w hw ⟨hlength, hchars⟩
    obtain ⟨u, rest, rfl, hu, rfl⟩ := mem_hyphened.1 hw
    refine h ⟨u, '-' :: rest, rfl, cons_ne_nil _ _, ?_⟩
    rw [matchAt_suffix htest, if_pos ⟨(hends u).trans hu, rfl, hlength, hchars⟩]
    rfl
  · rintro h ⟨u, v, rfl, -, hmatch⟩
    rw [matchAt_suffix htest] at hmatch
    split_ifs at hmatch with hcond
    · obtain ⟨hu, hhead, hlength, hchars⟩ := hcond
      cases v with
      | nil => cases hhead
      | cons c rest =>
        obtain rfl := Option.some.inj hhead
        exact h _ (mem_hyphened.2 ⟨u, rest, rfl, (hends u).symm.trans hu, rfl⟩) ⟨hlength, hchars⟩
    · cases hmatch

theorem forall₂_takeWhile {l l' : List Char} (h : List.Forall₂ (Lowers L) l l') :
    List.Forall₂ (Lowers L) (l.takeWhile L.isWord) (l'.takeWhile L.isWord) := by
  induction h with
  | nil => exact .nil
  | @cons c d l l' hcd _ ih =>
    cases hc : L.isWord c with
    | true =>
      rw [takeWhile_cons_of_pos hc, takeWhile_cons_of_pos (hcd.isWord.trans hc)]
      exact .cons hcd ih
    | false =>
      rw [takeWhile_cons_of_neg (by simp [hc]), takeWhile_cons_of_neg (by simp [hcd.isWord, hc])]
      exact .nil

theorem forall₂_hyphened {l l' : List Char} (h : List.Forall₂ (Lowers L) l l')
    (behind : Bool) : List.Forall₂ (List.Forall₂ (Lowers L)) (hyphened L behind l)
      (hyphened L behind l') := by
  induction h generalizing behind with
  | nil => exact .nil
  | @cons c d l l' hcd hl ih =>
    have hhyphen : decide (d = '-') = decide (c = '-') := decide_eq_decide.2 hcd.hyphen
    rw [hyphened, hyphened, hhyphen, hcd.isAlpha]
    refine rel_append ?_ (ih _)
    split_ifs
    · exact .cons (forall₂_takeWhile hl) .nil
    · exact .nil

theorem takeWhile_squeeze (hlaw : L.Lawful) (l : List Char) :
    (squeeze isSpace [' '] false l).takeWhile L.isWord = l.takeWhile L.isWord := by
  have hblank : L.isWord ' ' = false := hlaw.isWord_of_isSpace ' ' (by decide)
  induction l with
  | nil => rfl
  | cons c l ih =>
    cases hc : isSpace c with
    | true =>
      have hword := hlaw.isWord_of_isSpace c hc
      simp [squeeze, hc, hblank, hword]
    | false => simp [squeeze, hc, takeWhile_cons, ih]

theorem plain_of_isSpace (hc : isSpace c = true) : c ≠ '-' ∧ c.isAlpha = false := by
  rw [isSpace_iff] at hc
  refine ⟨?_, ?_⟩
  · rintro rfl
    exact absurd hc (by decide)
  · rw [← Bool.not_eq_true, isAlpha_iff]
    omega

theorem hyphened_squeeze (hlaw : L.Lawful) (l : List Char) (behind inRun : Bool)
    (hbehind : inRun = true → behind = false) :
    hyphened L behind (squeeze isSpace [' '] inRun l) = hyphened L behind l := by
  induction l generalizing behind inRun with
  | nil => rfl
  | cons c l ih =>
    cases hc : isSpace c with
    | false =>
      have hrest := ih c.isAlpha false (absurd · Bool.false_ne_true)
      simp [squeeze, hc, hyphened, takeWhile_squeeze hlaw, hrest]
    | true =>
      have hrest := ih false true fun _ => rfl
      obtain ⟨hhyphen, halpha⟩ := plain_of_isSpace hc
      have hblank : (' ' : Char).isAlpha = false := by decide
      cases inRun with
      | true => simp [squeeze, hc, hyphened, hhyphen, halpha, hrest, hbehind rfl]
      | false => simp [squeeze, hc, hyphened, hhyphen, halpha, hrest, hblank]

theorem hyphened_spaces {r : List Char} (hr : ∀ c ∈ r, isSpace c = true) :
    ∀ behind, hyphened L behind r = [] := by
  induction r with
  | nil => exact fun _ => rfl
  | cons c r ih =>
    intro behind
    have hrest := ih fun d hd => hr d (mem_cons_of_mem c hd)
    simp [hyphened, (plain_of_isSpace (hr c mem_cons_self)).1, hrest]

theorem hyphened_append_spaces (hlaw : L.Lawful) {r : List Char}
    (hr : ∀ c ∈ r, isSpace c = true) (l : List Char) (behind : Bool) :
    hyphened L behind (l ++ r) = hyphened L behind l := by
  have htake : r.takeWhile L.isWord = [] := by
    cases r with
    | nil => rfl
    | cons c r =>
      have hc := hlaw.isWord_of_isSpace c (hr c mem_cons_self)
      exact takeWhile_cons_of_neg (by simp [hc])
  have hword : ∀ l : List Char, (l ++ r).takeWhile L.isWord = l.takeWhile L.isWord := by
    intro l
    induction l with
    | nil => exact htake
    | cons c l ih => rw [cons_append, takeWhile_cons, takeWhile_cons, ih]
  induction l generalizing behind with
  | nil => exact hyphened_spaces hr behind
  | cons c l ih => rw [cons_append, hyphened, hyphened, hword, ih]

theorem hyphened_dropWhile (l : List Char) :
    hyphened L false (l.dropWhile isSpace) = hyphened L false l := by
  induction l with
  | nil => rfl
  | cons c l ih =>
    cases hc : isSpace c with
    | true =>
      rw [dropWhile_cons_of_pos hc, ih, hyphened, (plain_of_isSpace hc).2, Bool.false_and]
      rfl
    | false => rw [dropWhile_cons_of_neg (by simp [hc])]

theorem hyphened_trim (hlaw : L.Lawful) (l : List Char) :
    hyphened L false (trim l) = hyphened L false l := by
  have hsplit : (l.dropWhile isSpace).rdropWhile isSpace ++
      (l.dropWhile isSpace).rtakeWhile isSpace = l.dropWhile isSpace :=
    rdropWhile_append_rtakeWhile
  calc hyphened L false (trim l)
      = hyphened L false (trim l ++ (l.dropWhile isSpace).rtakeWhile isSpace) :=
        (hyphened_append_spaces hlaw (fun c hc => mem_rtakeWhile_imp hc) _ false).symm
    _ = hyphened L false (l.dropWhile isSpace) := by rw [trim, hsplit]
    _ = hyphened L false l := hyphened_dropWhile l

theorem hyphened_append (hhyphen : L.isWord '-' = false) {u : List Char}
    (hu : ∀ c ∈ u, L.isWord c = true ∨ c = '<' ∨ c = '>') (l : List Char) (behind : Bool) :
    hyphened L behind (u ++ l) = hyphened L (endsAlpha behind u) l := by
  induction u generalizing behind with
  | nil => rfl
  | cons c u ih =>
    have hc : c ≠ '-' := by
      rintro rfl
      obtain h | h | h := hu '-' mem_cons_self
      · rw [hhyphen] at h
        cases h
      · cases h
      · cases h
    rw [cons_append, hyphened, decide_eq_false hc, Bool.and_false, endsAlpha_cons,
      ih fun d hd => hu d (mem_cons_of_mem c hd)]
    rfl

/-- The word passes the test for what is left of a suffix. -/
def IsLeft (letters : Letters) (w : List Char) : Prop :=
  4 ≤ w.length ∧ (∀ c ∈ w, c.isAlphanum = true) ∧ ¬ ∀ c ∈ w, letters.isDigit c = true

/-- The word is a suffix but for its capitals. -/
def IsSuffix (w : List Char) : Prop := 4 ≤ w.length ∧ ∀ c ∈ w, c.isAlphanum = true

theorem isAlpha_of_isDigit (hlaw : L.Lawful) (h : L.isDigit c = true) :
    c.isAlpha = false := by
  rw [← Bool.not_eq_true]
  intro halpha
  have hascii : c.toNat < 128 := by
    rw [isAlpha_iff] at halpha
    omega
  rw [hlaw.isDigit_ascii c hascii, isDigit_iff] at h
  rw [isAlpha_iff] at halpha
  omega

theorem isWord_angle (hlaw : L.Lawful) : L.isWord '<' = false :=
  hlaw.isWord_ascii _ (by decide)

theorem isSuffix_takeWhile (hlaw : L.Lawful) (l : List Char) :
    IsSuffix ((mapWords L.isWord (onWord 4 L.isDigit "<n>".toList) l).takeWhile
        L.isWord) ↔ IsLeft L (l.takeWhile L.isWord) := by
  have hnil := onWord_nil (Nat.succ_pos 3) L.isDigit "<n>".toList
  have hrest : (mapWords L.isWord (onWord 4 L.isDigit "<n>".toList)
      (l.dropWhile L.isWord)).takeWhile L.isWord = [] := by
    cases hdrop : l.dropWhile L.isWord with
    | nil =>
      rw [mapWords, Regex.mapWordsFrom, hnil]
      rfl
    | cons d rest =>
      have hd := head?_dropWhile_not L.isWord l
      rw [hdrop] at hd
      have hd : L.isWord d = false := by simpa using hd
      rw [mapWords, Regex.mapWordsFrom, if_neg (by simp [hd]), hnil, nil_append]
      exact takeWhile_cons_of_neg (by simp [hd])
  have hall : ∀ c ∈ l.takeWhile L.isWord, L.isWord c = true :=
    fun c hc => mem_takeWhile_imp hc
  rw [mapWords, Regex.mapWordsFrom_eq hnil, nil_append, onWord]
  split_ifs with hlong
  · have hmark : "<n>".toList = '<' :: ("n".toList ++ ['>']) := rfl
    rw [hmark, cons_append, takeWhile_cons_of_neg (by simp [isWord_angle hlaw])]
    exact ⟨fun h => absurd h.1 (by decide), fun h => absurd hlong.2 h.2.2⟩
  · rw [takeWhile_append_of_pos hall, hrest, append_nil]
    exact ⟨fun h => ⟨h.1, h.2, fun hdigits => hlong ⟨h.1, hdigits⟩⟩, fun h => ⟨h.1, h.2.1⟩⟩

theorem endsAlpha_onWord (hlaw : L.Lawful) (behind : Bool) (word : List Char) :
    endsAlpha behind (onWord 4 L.isDigit "<n>".toList word) = endsAlpha behind word := by
  rw [onWord]
  split_ifs with hlong
  · -- a long number ends with no letter, nor does its mark
    cases hrev : word.reverse with
    | nil =>
      rw [reverse_eq_nil_iff.1 hrev] at hlong
      exact absurd hlong.1 (by decide)
    | cons c cs =>
      have hc : c ∈ word := mem_reverse.1 (by rw [hrev]; exact mem_cons_self)
      have hword : endsAlpha behind word = c.isAlpha := by rw [endsAlpha, hrev]
      rw [hword, isAlpha_of_isDigit hlaw (hlong.2 c hc)]
      rfl
  · rfl

theorem mem_onWord (hlaw : L.Lawful) {word : List Char}
    (hword : ∀ c ∈ word, L.isWord c = true) :
    ∀ c ∈ onWord 4 L.isDigit "<n>".toList word,
      L.isWord c = true ∨ c = '<' ∨ c = '>' := by
  intro c hc
  rw [onWord] at hc
  split_ifs at hc
  · have hmark : "<n>".toList = ['<', 'n', '>'] := rfl
    rw [hmark] at hc
    simp only [mem_cons, not_mem_nil, or_false] at hc
    obtain rfl | rfl | rfl := hc
    · exact .inr (.inl rfl)
    · exact .inl (isWord_of_isAlphanum hlaw (by decide))
    · exact .inr (.inr rfl)
  · exact .inl (hword c hc)

theorem exists_hyphened_mapWordsFrom (hlaw : L.Lawful) (l : List Char) {word : List Char}
    (hword : ∀ c ∈ word, L.isWord c = true) (behind : Bool) :
    (∃ w ∈ hyphened L behind (Regex.mapWordsFrom L.isWord
        (onWord 4 L.isDigit "<n>".toList) word l), IsSuffix w) ↔
      ∃ w ∈ hyphened L behind (word ++ l), IsLeft L w := by
  have hhyphen : L.isWord '-' = false := hlaw.isWord_ascii _ (by decide)
  induction l generalizing word behind with
  | nil =>
    have hmapped := hyphened_append hhyphen (mem_onWord hlaw hword) [] behind
    have hplain := hyphened_append hhyphen (fun c hc => .inl (hword c hc)) [] behind
    rw [append_nil] at hmapped
    rw [Regex.mapWordsFrom, hmapped, hplain]
    simp [hyphened]
  | cons c l ih =>
    cases hc : L.isWord c with
    | true =>
      have hmore : ∀ d ∈ word ++ [c], L.isWord d = true := by
        intro d hd
        obtain hd | hd := mem_append.1 hd
        · exact hword d hd
        · rw [mem_singleton.1 hd]
          exact hc
      have happend : word ++ c :: l = word ++ [c] ++ l := append_cons word c l
      rw [Regex.mapWordsFrom, if_pos hc, happend]
      exact ih hmore behind
    | false =>
      have hrest := ih (fun d (hd : d ∈ []) => absurd hd not_mem_nil) c.isAlpha
      rw [Regex.mapWordsFrom, if_neg (by simp [hc]),
        hyphened_append hhyphen (mem_onWord hlaw hword),
        hyphened_append hhyphen fun c hc => .inl (hword c hc), endsAlpha_onWord hlaw, hyphened,
        hyphened]
      simp only [mem_append, or_and_right, exists_or]
      refine or_congr ?_ hrest
      split_ifs
      · simp only [mem_singleton, exists_eq_left]
        exact isSuffix_takeWhile hlaw l
      · simp

theorem forall_not_iff {P Q : List Char → Prop} {vs ws : List (List Char)}
    (h : List.Forall₂ (List.Forall₂ (Lowers L)) vs ws)
    (hPQ : ∀ v w, List.Forall₂ (Lowers L) v w → (Q w ↔ P v)) :
    (∀ w ∈ ws, ¬ Q w) ↔ ∀ v ∈ vs, ¬ P v := by
  induction h with
  | nil => exact ⟨fun _ => nofun, fun _ => nofun⟩
  | cons hvw _ ih => rw [forall_mem_cons, forall_mem_cons, ih, hPQ _ _ hvw]

/-- **The normal form of a tame symptom has a suffix exactly if one is left** where the suffixes
were cut, numbers aside. -/
theorem search_podSuffix_iff (hlaw : L.Lawful) (h : Tame l) : search (podSuffix L)
        (L.lowerFrom [] (trim (sub whitespace [' '] (replaced L l)))) = none ↔
      ∀ w ∈ hyphened L false (suffixesOut L l), ¬ IsLeft L w := by
  have hword : ∀ c, isPodChar c = true → L.isWord c = true :=
    fun c hc => isWord_of_isAlphanum hlaw (isAlphanum_of_isPodChar hc)
  have htame : Tame (trim (sub whitespace [' '] (replaced L l))) :=
    tame_trim_whitespace (tame_replaced h)
  have hlower := forall₂_hyphened (forall₂_lowerFrom hlaw htame []) false
  have hspaces : hyphened L false (trim (sub whitespace [' '] (replaced L l))) =
      hyphened L false (replaced L l) := by
    rw [hyphened_trim hlaw, whitespace, Regex.sub_plus_sat]
    exact hyphened_squeeze hlaw _ false false fun _ => rfl
  have hmapped := exists_hyphened_mapWordsFrom hlaw (suffixesOut L l)
    (fun d (hd : d ∈ []) => absurd hd not_mem_nil) false
  have hnumbers : replaced L l = Regex.mapWordsFrom L.isWord
      (onWord 4 L.isDigit "<n>".toList) [] (suffixesOut L l) :=
    Regex.sub_wholeWord hlaw.isWord_of_isDigit (Nat.succ_pos 3) _
  rw [hspaces, hnumbers] at hlower
  have hcapitals := forall_not_iff (P := IsSuffix)
    (Q := fun w => 4 ≤ w.length ∧ ∀ c ∈ w, isPodChar c = true) hlower fun v w hvw => by
      rw [IsSuffix, ← hvw.length_eq, forall_of_forall₂ hvw fun c d hcd => hcd.isPodChar]
  rw [podSuffix, search_suffix_eq_none hword, hnumbers]
  refine hcapitals.trans ?_
  simpa only [not_exists, not_and, nil_append] using not_congr hmapped

/-- No suffix is left where the suffixes of the symptom were cut. -/
def NoneLeft (letters : Letters) (text : String) : Prop :=
  ∀ w ∈ hyphened letters false (suffixesOut letters (trim text.toList)), ¬ IsLeft letters w

/-- **The normal form of a tame symptom is in normal form exactly if no suffix is left.** -/
theorem idempotent_iff_noneLeft (hlaw : L.Lawful) {text : String} (h : Tame text.toList) :
    normaliseSymptom L (some (normaliseSymptom L (some text))) =
        normaliseSymptom L (some text) ↔ NoneLeft L text := by
  have htame : Tame (trim text.toList) := fun c hc => h c (mem_of_mem_trim hc)
  rw [idempotent_iff_settled hlaw, settled_iff hlaw h, toList_normaliseSymptom,
    search_podSuffix_iff hlaw htame]
  exact Iff.rfl

end Omniscience.Clustering
