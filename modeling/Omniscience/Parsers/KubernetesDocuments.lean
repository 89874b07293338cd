import Omniscience.Parsers.Kubernetes

/-!
# Documents of a Kubernetes file

A file is cut at its separator lines.  The pattern of the separator takes the white space behind it,
up to the last line break in front of the next text.  So a document is preceded by one line break,
whatever it began with.

* `splitYamlDocs_joined` : the documents of a file that is put together from manifests.
-/

namespace Omniscience.Parsers

namespace Kubernetes

open GraphRag (isSpace)
open Option
open List
open Regex (Place)
open Yaml

/-! ### Separator lines -/

/-- A line that separates documents, at the beginning of a text. -/
def isSeparatorLine (l : List Char) : Bool :=
  let line := l.takeWhile (· ≠ '\n')
  ['-', '-', '-'].isPrefixOf line && (line.drop 3).all isSpace

/-- There is no separator line in a text that stands behind a character. -/
def quiet : Option Char → List Char → Bool
  | _, [] => true
  | before, c :: l => !(before.all (· = '\n') && isSeparatorLine (c :: l)) && quiet (some c) l

/-- What is left of a text behind a line break that is preceded by `---`: the text from the last
line break in front of it on. -/
def fromLastBreak : List Char → Option (List Char)
  | [] => some []
  | c :: l => (if isSpace c then fromLastBreak l else none).or
      (if c = '\n' then some (c :: l) else none)

attribute [grind =] fromLastBreak

/-- A document as it comes behind a separator line. -/
def behind (m : List Char) : List Char := (fromLastBreak ('\n' :: m)).getD []

/-- A text with a character that is no white space. -/
def HasText (l : List Char) : Prop := ∃ c ∈ l, isSpace c = false

/-- A manifest of one document: it has text and no separator line, and ends with a line break. -/
structure IsManifest (m : List Char) : Prop where
  ends : m.getLast? = some '\n'
  single : quiet none m = true
  hasText : HasText m

/-- Manifests joined by separator lines. -/
def joinDocs : List (List Char) → List Char
  | [] => []
  | m :: ms => m ++ ms.flatMap (['-', '-', '-', '\n'] ++ ·)

variable {l m u v : List Char} {c : Char} {before : Option Char}

theorem HasText.of_cons (h : HasText (c :: l)) (hc : isSpace c = true) : HasText l := by
  obtain ⟨d, hd, hspace⟩ := h
  rcases mem_cons.1 hd with rfl | hd
  · rw [hc] at hspace
    cases hspace
  · exact ⟨d, hd, hspace⟩

theorem fromLastBreak_eq_some (htext : HasText l) {t : List Char} (h : fromLastBreak l = some t) :
    ∃ u v, l = u ++ '\n' :: v ∧ t = '\n' :: v ∧ ∀ c ∈ u, isSpace c = true := by
  induction l with
  | nil =>
    obtain ⟨c, hc, -⟩ := htext
    exact absurd hc not_mem_nil
  | cons c l ih =>
    rw [fromLastBreak, or_eq_some_iff] at h
    rcases h with h | ⟨-, h⟩
    · split_ifs at h with hc
      obtain ⟨u, v, rfl, ht, hu⟩ := ih (htext.of_cons hc) h
      exact ⟨c :: u, v, rfl, ht, forall_mem_cons.2 ⟨hc, hu⟩⟩
    · split_ifs at h with hc
      subst hc
      exact ⟨[], l, rfl, (Option.some.inj h).symm, fun _ hd => absurd hd not_mem_nil⟩

theorem exists_behind (m : List Char) : fromLastBreak ('\n' :: m) = some (behind m) := by
  rw [behind]
  cases h : fromLastBreak ('\n' :: m) with
  | some t => rfl
  | none =>
    rw [fromLastBreak, if_pos rfl] at h
    cases hrest : (if isSpace '\n' then fromLastBreak m else none) with
    | none =>
      rw [hrest] at h
      cases h
    | some t =>
      rw [hrest] at h
      cases h

theorem fromLastBreak_self {t : List Char} (h : fromLastBreak l = some t) :
    fromLastBreak t = some t := by
  induction l with
  | nil =>
    cases h
    rfl
  | cons c l ih =>
    have hwhole := h
    rw [fromLastBreak, or_eq_some_iff] at h
    rcases h with h | ⟨-, h⟩
    · split_ifs at h
      exact ih h
    · split_ifs at h
      cases h
      exact hwhole

theorem behind_behind (m : List Char) : behind (behind m) = behind m := by
  have hself := fromLastBreak_self (exists_behind m)
  rw [behind, fromLastBreak, if_pos (by decide), hself]
  rfl

theorem behind_spec (htext : HasText m) :
    ∃ u v, m = u ++ v ∧ behind m = '\n' :: v ∧ (∀ c ∈ u, isSpace c = true) ∧
      u.getLast?.all (· = '\n') = true := by
  obtain ⟨c, hc, hspace⟩ := htext
  obtain ⟨u, v, hsplit, hbehind, hu⟩ :=
    fromLastBreak_eq_some ⟨c, mem_cons_of_mem _ hc, hspace⟩ (exists_behind m)
  cases u with
  | nil =>
    obtain ⟨-, rfl⟩ := List.cons.inj hsplit
    exact ⟨[], m, rfl, hbehind, fun _ hd => absurd hd not_mem_nil, rfl⟩
  | cons d u =>
    obtain ⟨rfl, rfl⟩ := List.cons.inj hsplit
    refine ⟨u ++ ['\n'], v, by simp, hbehind, fun d hd => ?_, by simp⟩
    rcases mem_append.1 hd with hd | hd
    · exact hu d (mem_cons_of_mem _ hd)
    · rw [mem_singleton.1 hd]
      decide

theorem HasText.behind (htext : HasText m) : HasText (behind m) := by
  obtain ⟨c, hc, hspace⟩ := htext
  obtain ⟨u, v, rfl, hbehind, hu, -⟩ := behind_spec ⟨c, hc, hspace⟩
  rcases mem_append.1 hc with hc | hc
  · rw [hu c hc] at hspace
    cases hspace
  · rw [hbehind]
    exact ⟨c, mem_cons_of_mem _ hc, hspace⟩

/-! ### Splitting -/

theorem isSeparatorLine_append (h : '\n' ∈ l) : isSeparatorLine (l ++ m) = isSeparatorLine l := by
  rw [isSeparatorLine, isSeparatorLine, takeWhile_append]
  rw [if_neg]
  intro hlength
  have hall := takeWhile_eq_self_iff.1 ((takeWhile_sublist _).eq_of_length hlength)
  have := hall _ h
  simp at this

theorem isSome_fromLastBreak : (fromLastBreak l).isSome = (l.takeWhile (· ≠ '\n')).all isSpace := by
  induction l with
  | nil => rfl
  | cons c l ih =>
    rw [fromLastBreak]
    by_cases hbreak : c = '\n'
    · subst hbreak
      rw [isSome_or, if_pos rfl, isSome_some, Bool.or_true]
      rfl
    · rw [if_neg hbreak, or_none, takeWhile_cons_of_pos (by simpa using hbreak), all_cons, ← ih]
      cases isSpace c <;> rfl

theorem longestEnd_eq {n : ℕ} {p : Place Char} (hn : p.after.length ≤ n) :
    (Regex.longestEnd isSpace (fun _ after => after.all (· = '\n')) n p).map Place.after =
      fromLastBreak p.after := by
  induction n generalizing p with
  | zero =>
    have hnil := length_eq_zero_iff.1 (Nat.le_zero.1 hn)
    rw [Regex.longestEnd, hnil]
    simp [fromLastBreak, hnil]
  | succ n ih =>
    rw [Regex.longestEnd]
    cases hafter : p.after with
    | nil => simp [fromLastBreak, hafter]
    | cons c l =>
      have hlength : l.length ≤ n := by
        rw [hafter, length_cons] at hn
        omega
      have hrest := ih (p := p.move [c] l) hlength
      rw [fromLastBreak, map_or]
      congr 1
      · dsimp only
        split_ifs
        · exact hrest
        · rfl
      · by_cases hbreak : c = '\n' <;> simp [hbreak, hafter]

theorem isSeparatorLine_eq :
    isSeparatorLine l = (['-', '-', '-'].isPrefixOf l && (fromLastBreak (l.drop 3)).isSome) := by
  rw [isSome_fromLastBreak, isSeparatorLine]
  by_cases hdashes : ['-', '-', '-'].isPrefixOf l = true
  · obtain ⟨l, rfl⟩ := isPrefixOf_iff_prefix.1 hdashes
    rfl
  · rw [Bool.not_eq_true _ |>.mp hdashes, Bool.false_and, Bool.and_eq_false_iff]
    left
    by_contra hline
    rw [Bool.not_eq_false, isPrefixOf_iff_prefix] at hline
    exact hdashes ( isPrefixOf_iff_prefix.2 (hline.trans ( takeWhile_prefix _)))

theorem length_lt_of_separator {p q : Place Char} (hq : q ∈ Regex.run docSeparator p) :
    q.after.length < p.after.length := by
  obtain ⟨p₁, h₁, hq⟩ := Regex.mem_run_seq.1 hq
  obtain ⟨p₂, h₂, hq⟩ := Regex.mem_run_seq.1 hq
  obtain ⟨p₃, h₃, hq⟩ := Regex.mem_run_seq.1 hq
  obtain ⟨-, rfl⟩ := Regex.mem_run_edge.1 h₁
  obtain ⟨rest, hrest, rfl⟩ := Regex.mem_run_lit.1 h₂
  obtain ⟨w, rest', hw, -, rfl⟩ := Regex.mem_run_star_sat.1 h₃
  obtain ⟨-, rfl⟩ := Regex.mem_run_edge.1 hq
  have hlength := congrArg List.length hrest
  have hlength' := congrArg List.length hw
  simp only [Place.move, length_append] at hlength hlength' ⊢
  rw [show ("---" : String).toList.length = 3 from rfl] at hlength
  omega

theorem matchAt_docSeparator {p : Place Char} :
    (Regex.matchAt docSeparator p).map Place.after =
      if p.before.head?.all (· = '\n') && ['-', '-', '-'].isPrefixOf p.after then
        fromLastBreak (p.after.drop 3)
      else none := by
  have hrun : (Regex.run docSeparator p).head? =
      if p.before.head?.all (· = '\n') && ['-', '-', '-'].isPrefixOf p.after then
        Regex.longestEnd isSpace (fun _ after => after.all (· = '\n')) (p.after.drop 3).length
          (p.move ['-', '-', '-'] (p.after.drop 3))
      else none := by
    change ((Regex.run lineStart p).flatMap (Regex.run (Regex.seq (Regex.lit "---".toList)
      (Regex.seq (Regex.star space) lineEnd)))).head? = _
    rw [lineStart, Regex.run]
    by_cases hstart : p.before.head?.all (· = '\n') = true
    · rw [if_pos hstart, flatMap_singleton, Regex.run,
        show ("---" : String).toList = ['-', '-', '-'] from rfl, Regex.run_lit, hstart,
        Bool.true_and]
      by_cases hdashes : ['-', '-', '-'].isPrefixOf p.after = true
      · rw [if_pos hdashes, if_pos hdashes, flatMap_singleton, Regex.run, lineEnd,
          ← Regex.head?_repeats_edge]
        rfl
      · rw [if_neg hdashes, if_neg hdashes]
        rfl
    · rw [if_neg hstart, Bool.not_eq_true _ |>.mp hstart, Bool.false_and]
      rfl
  rw [Regex.matchAt_eq_head? fun q hq => length_lt_of_separator hq, hrun]
  split_ifs with h
  · exact longestEnd_eq (Nat.le_refl _)
  · rfl

theorem matchAt_docSeparator_eq_none {p : Place Char}
    (h : (p.before.head?.all (· = '\n') && isSeparatorLine p.after) = false) :
    Regex.matchAt docSeparator p = none := by
  rw [← map_eq_none_iff, matchAt_docSeparator]
  rw [isSeparatorLine_eq, ← Bool.and_assoc, Bool.and_eq_false_iff] at h
  rcases h with h | h
  · rw [h]
    rfl
  · rw [isSome_eq_false_iff, isNone_iff_eq_none] at h
    rw [h, ite_self]

theorem splitFrom_quiet {w rest piece before : List Char} {n : ℕ}
    (hquiet : quiet before.head? w = true) (hends : w = [] ∨ w.getLast? = some '\n')
    (hn : w.length ≤ n) :
    Regex.splitFrom docSeparator n piece ⟨before, w ++ rest, []⟩ =
      Regex.splitFrom docSeparator (n - w.length) (w.reverse ++ piece)
        ⟨w.reverse ++ before, rest, []⟩ := by
  induction w generalizing before piece n with
  | nil => rfl
  | cons c w ih =>
    obtain ⟨n, rfl⟩ : ∃ k, n = k + 1 := ⟨n - 1, by rw [length_cons] at hn; omega⟩
    have hends := hends.resolve_left (cons_ne_nil _ _)
    rw [quiet, Bool.and_eq_true, Bool.not_eq_true'] at hquiet
    have hnone : Regex.matchAt docSeparator ⟨before, c :: w ++ rest, []⟩ = none := by
      refine matchAt_docSeparator_eq_none ?_
      rw [isSeparatorLine_append (List.mem_of_getLast? hends)]
      exact hquiet.1
    rw [Regex.splitFrom, hnone]
    change Regex.splitFrom docSeparator n (c :: piece) ⟨c :: before, w ++ rest, []⟩ = _
    have hquiet : quiet (c :: before).head? w = true := hquiet.2
    rw [ih hquiet, length_cons, Nat.add_sub_add_right]
    · simp
    · cases w with
      | nil => exact .inl rfl
      | cons d w =>
        rw [List.getLast?_cons_cons] at hends
        exact .inr hends
    · rw [length_cons] at hn
      omega

theorem quiet_append {u : List Char} (h : quiet before (u ++ v) = true) :
    quiet (u.getLast?.or before) v = true := by
  induction u generalizing before with
  | nil => exact h
  | cons c u ih =>
    rw [cons_append, quiet, Bool.and_eq_true] at h
    have := ih h.2
    cases u with
    | nil => exact this
    | cons d u =>
      rw [List.getLast?_cons_cons]
      cases hlast : (d :: u).getLast? with
      | none => exact absurd (List.getLast?_eq_none_iff.1 hlast) (cons_ne_nil _ _)
      | some e => rwa [hlast] at this

theorem quiet_congr (before before' : Option Char)
    (h : before.all (· = '\n') = before'.all (· = '\n')) : quiet before l = quiet before' l := by
  cases l with
  | nil => rfl
  | cons c l => rw [quiet, quiet, h]

theorem IsManifest.behind (h : IsManifest m) :
    (∀ before, quiet before (behind m) = true) ∧ (behind m).getLast? = some '\n' ∧
      (Kubernetes.behind m).length ≤ m.length + 1 := by
  obtain ⟨u, v, hsplit, hbehind, hu, hlast⟩ := behind_spec h.hasText
  have hv : v ≠ [] := by
    rintro rfl
    obtain ⟨c, hc, hspace⟩ := h.hasText
    rw [hsplit, append_nil] at hc
    rw [hu c hc] at hspace
    cases hspace
  refine ⟨fun before => ?_, ?_, ?_⟩
  · have hquiet := h.single
    rw [hsplit] at hquiet
    have hquiet := quiet_append hquiet
    rw [or_none, quiet_congr _ (some '\n') (by rw [hlast]; rfl)] at hquiet
    rw [hbehind, quiet, hquiet, Bool.and_true, Bool.not_eq_true', Bool.and_eq_false_iff]
    exact .inr rfl
  · have hends := h.ends
    rw [hsplit, List.getLast?_append_of_ne_nil _ hv] at hends
    rw [hbehind, ← singleton_append, List.getLast?_append_of_ne_nil _ hv, hends]
  · rw [hbehind, hsplit, length_cons, length_append]
    omega

theorem fromLastBreak_append (htext : HasText l) :
    fromLastBreak (l ++ m) = (fromLastBreak l).map (· ++ m) := by
  induction l with
  | nil =>
    obtain ⟨c, hc, -⟩ := htext
    exact absurd hc not_mem_nil
  | cons c l ih =>
    rw [cons_append, fromLastBreak, fromLastBreak, map_or]
    congr 1
    · split_ifs with hc
      · exact ih (htext.of_cons hc)
      · rfl
    · split_ifs <;> rfl

theorem splitFrom_end {r : Regex Char} {n : ℕ} {piece before : List Char} :
    Regex.splitFrom r n piece ⟨before, [], []⟩ = [piece.reverse] := by
  cases n with
  | zero => rw [Regex.splitFrom, append_nil]
  | succ n =>
    have hnone : Regex.matchAt r ⟨before, [], []⟩ = none := by
      cases hmatch : Regex.matchAt r ⟨before, [], []⟩ with
      | none => rfl
      | some q => exact absurd (Regex.matchAt_eq_some_imp hmatch).2 (Nat.not_lt_zero _)
    rw [Regex.splitFrom, hnone]

theorem splitFrom_joined {ms : List (List Char)} {w before : List Char} {n : ℕ}
    (hquiet : quiet before.head? w = true) (hends : w.getLast? = some '\n')
    (hms : ∀ m ∈ ms, IsManifest m)
    (hn : (w ++ ms.flatMap (['-', '-', '-', '\n'] ++ ·)).length ≤ n) :
    Regex.splitFrom docSeparator n [] ⟨before, w ++ ms.flatMap (['-', '-', '-', '\n'] ++ ·), []⟩ =
      w :: ms.map behind := by
  induction ms generalizing w before n with
  | nil =>
    rw [length_append] at hn
    rw [splitFrom_quiet hquiet (.inr hends) (by omega), flatMap_nil, splitFrom_end]
    simp
  | cons m ms ih =>
    obtain ⟨hm, hms⟩ := forall_mem_cons.1 hms
    obtain ⟨hquiet', hends', hlength⟩ := hm.behind
    rw [flatMap_cons, length_append, length_append, length_append,
      show ['-', '-', '-', '\n'].length = 4 from rfl] at hn
    rw [splitFrom_quiet hquiet (.inr hends) (by omega), flatMap_cons]
    obtain ⟨k, hk⟩ : ∃ k, n - w.length = k + 1 := ⟨n - w.length - 1, by omega⟩
    have hmatch : (Regex.matchAt docSeparator ⟨w.reverse ++ before, ['-', '-', '-', '\n'] ++ m ++
        ms.flatMap (['-', '-', '-', '\n'] ++ ·), []⟩).map Place.after =
          some (behind m ++ ms.flatMap (['-', '-', '-', '\n'] ++ ·)) := by
      obtain ⟨c, hc, hspace⟩ := hm.hasText
      rw [matchAt_docSeparator, List.head?_append, List.head?_reverse, hends]
      change fromLastBreak (('\n' :: m) ++ _) = _
      rw [fromLastBreak_append ⟨c, mem_cons_of_mem _ hc, hspace⟩, exists_behind]
      rfl
    obtain ⟨q, hq, hafter⟩ := map_eq_some_iff.1 hmatch
    rw [hk, Regex.splitFrom, hq, append_nil, reverse_reverse]
    dsimp only
    rw [hafter, ih (hquiet' _) hends' hms, map_cons]
    rw [length_append]
    omega

theorem split_joined {ms : List (List Char)} (hms : ∀ x ∈ m :: ms, IsManifest x) :
    Regex.split docSeparator (joinDocs (m :: ms)) = m :: ms.map behind := by
  obtain ⟨hm, hms⟩ := forall_mem_cons.1 hms
  have hquiet : quiet ([] : List Char).head? m = true := hm.single
  exact splitFrom_joined hquiet hm.ends hms (Nat.le_refl _)

theorem splitYamlDocs_joined {ms : List (List Char)} (hms : ∀ x ∈ m :: ms, IsManifest x) :
    splitYamlDocs (joinDocs (m :: ms)) = m :: ms.map behind := by
  rw [splitYamlDocs, split_joined hms, filter_eq_self]
  have htext {l : List Char} (h : HasText l) : (l.any fun c => !isSpace c) = true := by
    obtain ⟨c, hc, hspace⟩ := h
    exact any_eq_true.2 ⟨c, hc, by rw [hspace]; rfl⟩
  intro doc hdoc
  rcases mem_cons.1 hdoc with rfl | hdoc
  · exact htext (hms _ mem_cons_self).hasText
  · obtain ⟨x, hx, rfl⟩ := mem_map.1 hdoc
    exact htext (hms x (mem_cons_of_mem _ hx)).hasText.behind

end Kubernetes

end Omniscience.Parsers
