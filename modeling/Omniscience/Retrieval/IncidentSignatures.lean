import Omniscience.Retrieval.SymptomNormalForms

/-!
# What a signature tells apart

`compute_signature` hashes the type of the alert, the service and the normal form of the symptom,
with bars between them.  `signatures_canonical` says when the normal form of a symptom is its own normal
form and the normal form of the symptom in small letters, and when the joined string tells its parts
apart: where types and services have as many bars.
-/

namespace Omniscience.Clustering

open GraphRag (isSpace strip)
open List

variable {letters L : Letters}

/-- What `compute_signature` reads of an incident. -/
structure Incident where
  alertType : String
  service : Option String
  symptomText : Option String

/-- The type of the alert, as it is joined. -/
def Incident.alertPart (letters : Letters) (i : Incident) : String :=
  letters.lower (strip i.alertType)

/-- The service, as it is joined. -/
def Incident.servicePart (letters : Letters) (i : Incident) : String :=
  letters.lower (strip (i.service.getD ""))

/-- The symptom, as it is joined. -/
def Incident.symptomPart (letters : Letters) (i : Incident) : String :=
  normaliseSymptom letters i.symptomText

/-- The string that is hashed. -/
def Incident.canonical (letters : Letters) (i : Incident) : String :=
  Clustering.canonical letters i.alertType i.service i.symptomText

/-- Two incidents have the same parts. -/
def SameParts (letters : Letters) (i j : Incident) : Prop :=
  i.alertPart letters = j.alertPart letters ∧ i.servicePart letters = j.servicePart letters ∧
    i.symptomPart letters = j.symptomPart letters

/-- The bars of a text. -/
def bars (text : String) : ℕ := text.toList.count '|'

/-- Two incidents have as many bars in their types, and in their services. -/
def SameBars (i j : Incident) : Prop :=
  bars i.alertType = bars j.alertType ∧ bars (i.service.getD "") = bars (j.service.getD "")

theorem toList_canonical (L : Letters) (i : Incident) : (i.canonical L).toList =
      (i.alertPart L).toList ++ '|' :: ((i.servicePart L).toList ++ '|' ::
        (i.symptomPart L).toList) := by
  rw [Incident.canonical, Clustering.canonical, String.intercalate_cons_cons,
    String.intercalate_cons_cons, String.intercalate_singleton]
  simp [Incident.alertPart, Incident.servicePart, Incident.symptomPart]

/-! ### Bars -/

theorem count_lowerFrom (hlaw : L.Lawful) (before l : List Char) :
    (L.lowerFrom before l).count '|' = l.count '|' := by
  induction l generalizing before with
  | nil => rfl
  | cons c l ih =>
    rw [Letters.lowerFrom, count_append, ih, count_cons]
    by_cases hc : c = '|'
    · subst hc
      rw [hlaw.lowerAt_ascii _ _ '|' (by decide), Nat.add_comm]
      rfl
    · have hnone : (L.lowerAt before l c).count '|' = 0 :=
        count_eq_zero.2 fun h => hc (hlaw.lowerAt_ne_bar before l c h)
      rw [hnone, if_neg (by simpa using hc), Nat.zero_add, Nat.add_zero]

theorem count_spaces {l : List Char} (h : ∀ c ∈ l, isSpace c = true) : l.count '|' = 0 :=
  count_eq_zero.2 fun hbar => absurd (h '|' hbar) (by decide)

theorem count_trim (l : List Char) : (trim l).count '|' = l.count '|' := by
  have hleft := congrArg (List.count '|') (takeWhile_append_dropWhile (p := isSpace) (l := l))
  have hsplit : (l.dropWhile isSpace).rdropWhile isSpace ++
      (l.dropWhile isSpace).rtakeWhile isSpace = l.dropWhile isSpace :=
    rdropWhile_append_rtakeWhile
  have hright := congrArg (List.count '|') hsplit
  rw [count_append, count_spaces fun c hc => mem_takeWhile_imp hc, Nat.zero_add] at hleft
  rw [count_append, count_spaces fun c hc => mem_rtakeWhile_imp hc, Nat.add_zero, hleft] at hright
  exact hright

theorem bars_part (hlaw : L.Lawful) (text : String) :
    bars (L.lower (strip text)) = bars text := by
  rw [bars, Letters.lower, String.toList_ofList, count_lowerFrom hlaw, strip_eq,
    String.toList_ofList, count_trim]
  rfl

theorem append_bar_inj {u v x y : List Char} (hcount : u.count '|' = v.count '|')
    (h : u ++ '|' :: x = v ++ '|' :: y) : u = v ∧ x = y := by
  obtain ⟨a, hv, hrest⟩ | ⟨a, hu, hrest⟩ := append_eq_append_iff.1 h
  · cases a with
    | nil => exact ⟨by rw [hv, append_nil], (List.cons.inj hrest).2⟩
    | cons c a =>
      rw [cons_append] at hrest
      obtain ⟨rfl, -⟩ := List.cons.inj hrest
      rw [hv, count_append, count_cons_self] at hcount
      omega
  · cases a with
    | nil => exact ⟨by rw [hu, append_nil], (List.cons.inj hrest).2.symm⟩
    | cons c a =>
      rw [cons_append] at hrest
      obtain ⟨rfl, -⟩ := List.cons.inj hrest
      rw [hu, count_append, count_cons_self] at hcount
      omega

/-- **Incidents of one joined string have the same parts exactly if they have the same bars.** -/
theorem sameParts_iff (hlaw : L.Lawful) {i j : Incident}
    (h : i.canonical L = j.canonical L) : SameParts L i j ↔ SameBars i j := by
  have h := congrArg String.toList h
  rw [toList_canonical, toList_canonical] at h
  rw [SameBars, ← bars_part hlaw, ← bars_part hlaw j.alertType,
    ← bars_part hlaw (i.service.getD ""), ← bars_part hlaw (j.service.getD "")]
  constructor
  · rintro ⟨halert, hservice, -⟩
    exact ⟨congrArg bars halert, congrArg bars hservice⟩
  · rintro ⟨halert, hservice⟩
    obtain ⟨halert, h⟩ := append_bar_inj halert h
    obtain ⟨hservice, hsymptom⟩ := append_bar_inj hservice h
    exact ⟨String.toList_inj.1 halert, String.toList_inj.1 hservice, String.toList_inj.1 hsymptom⟩

/-! ### Signatures -/

/-- **When signatures are canonical.**  The normal form of a symptom is stable exactly if the
patterns find nothing in it; it does not depend on capitals that do not decide what is found; and
joined strings tell incidents apart that have the same bars. -/
theorem signatures_canonical (hlaw : letters.Lawful) :
    (∀ text, normaliseSymptom letters (some (normaliseSymptom letters (some text))) =
        normaliseSymptom letters (some text) ↔
      Settled letters (normaliseSymptom letters (some text)).toList) ∧
    (∀ text : String, Tame text.toList →
      (normaliseSymptom letters (some (normaliseSymptom letters (some text))) =
        normaliseSymptom letters (some text) ↔ NoneLeft letters text)) ∧
    (∀ text, CaseBlind letters text →
      normaliseSymptom letters (some (low text)) = normaliseSymptom letters (some text)) ∧
    ∀ i j : Incident, i.canonical letters = j.canonical letters →
      (SameParts letters i j ↔ SameBars i j) :=
  ⟨idempotent_iff_settled hlaw, fun _ => idempotent_iff_noneLeft hlaw,
    fun _ => normaliseSymptom_low hlaw, fun _ _ => sameParts_iff hlaw⟩

/-- The letters of ASCII, and no others. -/
def Letters.ascii : Letters where
  isWord c := c.isAlphanum || c == '_'
  isDigit := Char.isDigit
  lowerAt _ _ c := [c.toLower]

theorem Letters.ascii_lawful : Letters.ascii.Lawful where
  isWord_ascii _ _ := rfl
  isDigit_ascii _ _ := rfl
  isWord_of_isDigit c h := by
    have h : c.isDigit = true := h
    simp [Letters.ascii, Char.isAlphanum, h]
  isWord_of_isSpace c h := by
    have hnot : ¬ c.isAlphanum = true := by
      rw [isSpace_iff] at h
      rw [isAlphanum_iff]
      omega
    have hne : c ≠ '_' := by
      rintro rfl
      exact absurd h (by decide)
    simp [Letters.ascii, hnot, hne]
  lowerAt_ascii _ _ _ _ := rfl
  lowerAt_space _ _ c h := by
    have hlow : c.toLower = c := by
      rw [isSpace_iff] at h
      rw [eq_iff_toNat, toNat_toLower, if_neg (by omega)]
    exact congrArg (fun d => [d]) hlow
  lowerAt_not_space _ _ c h := by
    refine ⟨cons_ne_nil _ _, fun d hd => ?_⟩
    rw [mem_singleton.1 hd, isSpace_toLower, h]
  lowerAt_ne_bar _ _ c h := ((eq_toLower_iff rfl c).1 (mem_singleton.1 h).symm)
  lowerAt_lowerAt _ _ c _ _ d hd := by
    rw [mem_singleton.1 hd]
    refine congrArg (fun d => [d]) ?_
    rw [eq_iff_toNat, toNat_toLower, if_neg]
    rw [toNat_toLower]
    split_ifs <;> omega
  lowerAt_one _ _ c _ _ := by
    refine ⟨c.toLower, rfl, ?_, isDigit_toLower c, fun h => ?_⟩
    · have hline : (c.toLower == '_') = (c == '_') := beq_eq_beq.2 (eq_toLower_iff rfl c)
      simp [Letters.ascii, isAlphanum_toLower, hline]
    · rw [toLower_of_not_ascii h]
      exact h
  lowerAt_toLower _ _ c := by
    refine congrArg (fun d => [d]) ?_
    rw [eq_iff_toNat, toNat_toLower, if_neg]
    rw [toNat_toLower]
    split_ifs <;> omega

/-- An alert of a restarted pod. -/
def sampleIncident : Incident where
  alertType := "CrashLoop"
  service := some "api"
  symptomText := some "pod api-7f9b3a restarted"

theorem signatures_canonical_sample : normaliseSymptom Letters.ascii
        (some (normaliseSymptom Letters.ascii sampleIncident.symptomText)) =
      normaliseSymptom Letters.ascii sampleIncident.symptomText ∧
      SameParts Letters.ascii sampleIncident
        { sampleIncident with symptomText := some "pod api-2c4e1d restarted" } := by
  obtain ⟨-, hidempotent, -, hparts⟩ := signatures_canonical Letters.ascii_lawful
  have hsymptom : normaliseSymptom Letters.ascii sampleIncident.symptomText =
      normaliseSymptom Letters.ascii (some "pod api-2c4e1d restarted") := by
    refine String.toList_injective ?_
    unfold sampleIncident
    rw [toList_normaliseSymptom, toList_normaliseSymptom, String.toList_ofList,
      String.toList_ofList]
    decide
  have hcanonical : sampleIncident.canonical Letters.ascii = Incident.canonical Letters.ascii
      { sampleIncident with symptomText := some "pod api-2c4e1d restarted" } := by
    rw [Incident.canonical, canonical, hsymptom]
    rfl
  refine ⟨(hidempotent "pod api-7f9b3a restarted" ?_).2 ?_, (hparts _ _ hcanonical).2 ?_⟩
  · unfold Tame
    decide
  · unfold NoneLeft IsLeft
    decide
  · exact ⟨by decide, by decide⟩

/-- A suffix with capitals is cut off in the second round only, and a bar may stand in a type. -/
theorem capitals_and_bars :
    (¬ ∀ text, normaliseSymptom Letters.ascii
        (some (normaliseSymptom Letters.ascii (some text))) =
      normaliseSymptom Letters.ascii (some text)) ∧
    (¬ ∀ text, normaliseSymptom Letters.ascii (some (low text)) =
      normaliseSymptom Letters.ascii (some text)) ∧
    ¬ ∀ i j : Incident, i.canonical Letters.ascii = j.canonical Letters.ascii →
      SameParts Letters.ascii i j := by
  refine ⟨fun h => ?_, fun h => ?_, fun h => ?_⟩
  · exact absurd (h "API-ABCD") (by decide)
  · exact absurd (h "API-ABCD") (by decide)
  · obtain ⟨halert, -⟩ := h ⟨"a|b", some "c", none⟩ ⟨"a", some "b|c", none⟩ (by decide)
    exact absurd halert (by decide)

end Omniscience.Clustering
