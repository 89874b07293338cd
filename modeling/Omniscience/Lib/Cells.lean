import Omniscience.Lib.Dict

/-!
# Machines with a cell for each key

A rate limiter with a bucket for each caller, a counter for each topic: an input names a key, and
the machine reads and writes the cell of that key only.  What it answers to the inputs of one key
is then what it would answer if there were no others (`outputs_filter`), which is the one cell of
the key run on its own inputs (`solo`).

* `Cells.Machine.outputs_of_key` : inputs of other keys can be left out.
* `Cells.Machine.get?_after` : what a cell holds in the end follows from the inputs of its key.
-/

namespace Omniscience.Cells

open List

variable {K I S O : Type*}

/-- A machine that keeps a cell for each key. -/
structure Machine (K I S O : Type*) where
  key : I → K
  /-- What an input does to its cell (`none` if there is none yet), and the answer. -/
  act : Option S → I → S × O

namespace Machine

variable (m : Machine K I S O)

/-- One cell on its own: every input with its answer. -/
def solo (s : Option S) : List I → List (I × O)
  | [] => []
  | i :: rest => (i, (m.act s i).2) :: solo (some (m.act s i).1) rest

/-- What one cell holds after the inputs. -/
def soloAfter (s : Option S) : List I → Option S
  | [] => s
  | i :: rest => soloAfter (some (m.act s i).1) rest

variable [DecidableEq K]

/-- One input. -/
def step (d : Dict K S) (i : I) : Dict K S × O :=
  (d.set (m.key i) (m.act (d.get? (m.key i)) i).1, (m.act (d.get? (m.key i)) i).2)

/-- Every input with its answer. -/
def outputs (d : Dict K S) : List I → List (I × O)
  | [] => []
  | i :: rest => (i, (m.step d i).2) :: outputs (m.step d i).1 rest

/-- The cells after the inputs. -/
def after (d : Dict K S) (l : List I) : Dict K S := l.foldl (fun d i => (m.step d i).1) d

variable (d : Dict K S)

theorem get?_step_self (i : I) :
    (m.step d i).1.get? (m.key i) = some (m.act (d.get? (m.key i)) i).1 :=
  d.get?_set_self _ _

theorem get?_step_ne (i : I) {k : K} (h : k ≠ m.key i) : (m.step d i).1.get? k = d.get? k :=
  d.get?_set_ne _ h

theorem get?_after (l : List I) (k : K) :
    (m.after d l).get? k = m.soloAfter (d.get? k) (l.filter fun i => m.key i = k) := by
  induction l generalizing d with
  | nil => rfl
  | cons i rest ih =>
    show (m.after (m.step d i).1 rest).get? k = _
    rw [ih]
    by_cases h : m.key i = k
    · subst h
      rw [filter_cons_of_pos (by simp), get?_step_self]
      rfl
    · rw [filter_cons_of_neg (by simpa using h), m.get?_step_ne d i (Ne.symm h)]

/-- **The answers to the inputs of one key are those of its cell on its own.** -/
theorem outputs_filter (l : List I) (k : K) : (m.outputs d l).filter (fun x => m.key x.1 = k) =
      m.solo (d.get? k) (l.filter fun i => m.key i = k) := by
  induction l generalizing d with
  | nil => rfl
  | cons i rest ih =>
    rw [outputs]
    by_cases h : m.key i = k
    · subst h
      rw [filter_cons_of_pos (by simp), filter_cons_of_pos (by simp), ih, get?_step_self]
      rfl
    · rw [filter_cons_of_neg (by simpa using h), filter_cons_of_neg (by simpa using h), ih,
        m.get?_step_ne d i (Ne.symm h)]

theorem outputs_eq_solo {l : List I} {k : K} (h : ∀ i ∈ l, m.key i = k) :
    m.outputs d l = m.solo (d.get? k) l := by
  induction l generalizing d with
  | nil => rfl
  | cons i rest ih =>
    rw [outputs, ih _ fun j hj => h j (mem_cons_of_mem _ hj), ← h i mem_cons_self, get?_step_self]
    rfl

/-- **Inputs of other keys do not change the answers to the inputs of one.** -/
theorem outputs_of_key (l : List I) (k : K) : (m.outputs d l).filter (fun x => m.key x.1 = k) =
      m.outputs d (l.filter fun i => m.key i = k) := by
  rw [outputs_filter, m.outputs_eq_solo d fun i hi => by simpa using (mem_filter.1 hi).2]

end Machine

end Omniscience.Cells
