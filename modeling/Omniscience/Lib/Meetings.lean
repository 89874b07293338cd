import Mathlib.Data.List.Basic
import Mathlib.Data.Set.Insert
import Mathlib.Data.List.Induction

/-!
# Everyone arrives and looks around once

Members come into a hall one after the other, and each, at some moment after it came, looks around
once and notes everyone else it sees.  A member that looks before another one came does not see
it.  Yet of any two members one is the later to look, and by then both are there: whatever the
order, every two members end up on the notes of one of them (`met_or_met_iff`).

Pairwise linking of records that are loaded piece by piece has this shape.
-/

namespace Omniscience.Meetings

open List

variable {ι : Type*}

/-- What a member does. -/
inductive Act (ι : Type*) where
  | arrive (i : ι)
  | look (i : ι)

/-- Who is there, and who has noted whom. -/
structure Hall (ι : Type*) where
  present : Set ι
  met : Set (ι × ι)

/-- An empty hall. -/
def Hall.empty : Hall ι := ⟨∅, ∅⟩

/-- One act.  Who is not there sees nobody. -/
def Hall.act (h : Hall ι) : Act ι → Hall ι
  | .arrive i => { h with present := insert i h.present }
  | .look i => { h with met := h.met ∪ {p | p.1 = i ∧ i ∈ h.present ∧ p.2 ∈ h.present ∧ p.2 ≠ i} }

/-- The hall after the acts. -/
def after (acts : List (Act ι)) : Hall ι := acts.foldl Hall.act Hall.empty

/-- Each member arrives once, looks around once, and arrives before it looks. -/
structure Visits (members : List ι) (acts : List (Act ι)) : Prop where
  each : acts.Perm (members.map Act.arrive ++ members.map Act.look)
  arrived : ∀ {pre post i}, acts = pre ++ Act.look i :: post → Act.arrive i ∈ pre

@[simp] theorem after_nil : after ([] : List (Act ι)) = Hall.empty := rfl

@[simp] theorem after_concat (acts : List (Act ι)) (a : Act ι) :
    after (acts ++ [a]) = (after acts).act a := by
  simp [after]

theorem mem_present {acts : List (Act ι)} {i : ι} :
    i ∈ (after acts).present ↔ Act.arrive i ∈ acts := by
  induction acts using List.reverseRecOn with
  | nil => simp [Hall.empty]
  | append_singleton acts a ih =>
    cases a with
    | arrive j => simp [Hall.act, ih, or_comm]
    | look j => simp [Hall.act, ih]

theorem concat_eq_append_cons {α : Type*} {l pre post : List α} {a b : α} :
    l ++ [a] = pre ++ b :: post ↔
      (pre = l ∧ b = a ∧ post = []) ∨ ∃ post', post = post' ++ [a] ∧ l = pre ++ b :: post' := by
  constructor
  · intro h
    rcases eq_nil_or_concat post with rfl | ⟨post', c, rfl⟩
    · obtain ⟨hpre, hb⟩ := append_inj' h rfl
      exact .inl ⟨hpre.symm, (singleton_inj.1 hb).symm, rfl⟩
    · have h' : l ++ [a] = (pre ++ b :: post') ++ [c] := by simpa using h
      obtain ⟨hl, hc⟩ := append_inj' h' rfl
      obtain rfl := singleton_inj.1 hc
      exact .inr ⟨post', by simp, hl⟩
  · rintro (⟨rfl, rfl, rfl⟩ | ⟨post', rfl, rfl⟩)
    · rfl
    · simp

theorem mem_met {acts : List (Act ι)} {i j : ι} : (i, j) ∈ (after acts).met ↔
    ∃ pre post, acts = pre ++ Act.look i :: post ∧ Act.arrive i ∈ pre ∧ Act.arrive j ∈ pre ∧
      j ≠ i := by
  induction acts using List.reverseRecOn with
  | nil => simp [Hall.empty]
  | append_singleton acts a ih =>
    have hmet : (i, j) ∈ (after (acts ++ [a])).met ↔ (i, j) ∈ (after acts).met ∨
        (a = Act.look i ∧ Act.arrive i ∈ acts ∧ Act.arrive j ∈ acts ∧ j ≠ i) := by
      rw [after_concat]
      cases a with
      | arrive k => simp [Hall.act]
      | look k =>
        simp only [Hall.act, Set.mem_union, Set.mem_ofPred_eq, mem_present, Act.look.injEq]
        constructor
        · rintro (h | ⟨rfl, h⟩)
          · exact .inl h
          · exact .inr ⟨rfl, h⟩
        · rintro (h | ⟨rfl, h⟩)
          · exact .inl h
          · exact .inr ⟨rfl, h⟩
    rw [hmet, ih]
    constructor
    · rintro (⟨pre, post, rfl, h⟩ | ⟨rfl, h⟩)
      · exact ⟨pre, post ++ [a], by simp, h⟩
      · exact ⟨acts, [], rfl, h⟩
    · rintro ⟨pre, post, heq, h⟩
      rcases concat_eq_append_cons.1 heq with ⟨rfl, ha, -⟩ | ⟨post', -, hacts⟩
      · exact .inr ⟨ha.symm, h⟩
      · exact .inl ⟨pre, post', hacts, h⟩

variable {members : List ι} {acts : List (Act ι)} {i j : ι}

theorem Visits.arrive_mem (h : Visits members acts) : Act.arrive i ∈ acts ↔ i ∈ members := by
  rw [h.each.mem_iff]
  simp

theorem Visits.look_mem (h : Visits members acts) : Act.look i ∈ acts ↔ i ∈ members := by
  rw [h.each.mem_iff]
  simp

theorem Visits.met_of_mem (h : Visits members acts) (hi : i ∈ members) (hj : j ∈ members)
    (hne : i ≠ j) : (i, j) ∈ (after acts).met ∨ (j, i) ∈ (after acts).met := by
  obtain ⟨pre, post, hacts⟩ := append_of_mem (h.look_mem.2 hi)
  have hpre : Act.arrive i ∈ pre := h.arrived hacts
  have hlook : Act.look j ∈ pre ∨ Act.look j ∈ post := by
    have := h.look_mem.2 hj
    rw [hacts] at this
    simpa [hne.symm] using this
  rcases hlook with hlook | hlook
  · -- `j` had looked, hence come, before `i` looked
    obtain ⟨pre', post', rfl⟩ := append_of_mem hlook
    have hj' : Act.arrive j ∈ pre' := h.arrived (by rw [hacts, append_assoc]; rfl)
    exact .inl (mem_met.2 ⟨_, _, hacts, hpre, by simp [hj'], hne.symm⟩)
  · -- `j` looked after `i` had come
    obtain ⟨pre', post', rfl⟩ := append_of_mem hlook
    have hacts' : acts = (pre ++ Act.look i :: pre') ++ Act.look j :: post' := by
      rw [hacts]
      simp
    exact .inr (mem_met.2 ⟨_, _, hacts', h.arrived hacts', by simp [hpre], hne⟩)

theorem Visits.met_or_met_iff (h : Visits members acts) :
    (i, j) ∈ (after acts).met ∨ (j, i) ∈ (after acts).met ↔
      i ∈ members ∧ j ∈ members ∧ i ≠ j := by
  constructor
  · rintro (hmet | hmet)
    · obtain ⟨pre, post, rfl, hi, hj, hne⟩ := mem_met.1 hmet
      exact ⟨h.arrive_mem.1 (by simp [hi]), h.arrive_mem.1 (by simp [hj]), hne.symm⟩
    · obtain ⟨pre, post, rfl, hj, hi, hne⟩ := mem_met.1 hmet
      exact ⟨h.arrive_mem.1 (by simp [hi]), h.arrive_mem.1 (by simp [hj]), hne⟩
  · rintro ⟨hi, hj, hne⟩
    exact h.met_of_mem hi hj hne

theorem visits_arrive_look (members : List ι) :
    Visits members (members.map Act.arrive ++ members.map Act.look) where
  each := .refl _
  arrived {pre post i} h := by
    have hi : i ∈ members := by
      have : Act.look i ∈ members.map Act.arrive ++ members.map Act.look := by
        rw [h]
        exact mem_append_right pre mem_cons_self
      simpa using this
    rcases append_eq_append_iff.1 h with ⟨l, rfl, -⟩ | ⟨l, harrive, hlook⟩
    · exact mem_append_left _ (mem_map_of_mem hi)
    · cases l with
      | nil =>
        rw [append_nil] at harrive
        rw [← harrive]
        exact mem_map_of_mem hi
      | cons a l =>
        have ha : Act.look i ∈ members.map Act.arrive := by
          obtain ⟨rfl, -⟩ := cons_eq_cons.1 hlook
          rw [harrive]
          exact mem_append_right pre mem_cons_self
        obtain ⟨k, -, hk⟩ := mem_map.1 ha
        cases hk

/-- Each looks around as soon as it has come. -/
def oneByOne (l : List ι) : List (Act ι) := l.flatMap fun i => [.arrive i, .look i]

theorem visits_oneByOne {l : List ι} (h : l.Perm members) : Visits members (oneByOne l) where
  each := by
    refine List.Perm.trans ?_ ((h.map _).append (h.map _))
    clear h
    induction l with
    | nil => exact .nil
    | cons i l ih =>
      refine List.Perm.trans ((ih.cons _).cons _) ?_
      exact (perm_middle.symm).cons _
  arrived {pre post i} heq := by
    clear h
    induction l generalizing pre with
    | nil => simp [oneByOne] at heq
    | cons j l ih =>
      match pre, heq with
      | [], heq => cases heq
      | [a], heq =>
        cases heq
        exact mem_singleton_self _
      | a :: b :: pre, heq =>
        obtain ⟨-, heq⟩ := cons_eq_cons.1 heq
        obtain ⟨-, heq⟩ := cons_eq_cons.1 heq
        exact mem_cons_of_mem _ (mem_cons_of_mem _ (ih heq))

end Omniscience.Meetings
