import Omniscience.Queue.Consumer

/-!
# A stream with durable consumers

The broker keeps the messages of a stream and, for every durable consumer, how often it has
delivered each of them and whether it may deliver it again.  A consumer receives the messages
whose subject its filter matches.  A message is delivered again when it was handed back, and not
more than `maxDeliver` times.

A stream is shared: what one consumer answers has no effect on the deliveries of the others.
-/

namespace Omniscience.Queue

/-! ### Subjects -/

/-- The tokens of a subject, which are separated by dots. -/
def tokens : List Char → List (List Char)
  | [] => [[]]
  | '.' :: cs => [] :: tokens cs
  | c :: cs =>
    match tokens cs with
    | [] => [[c]]
    | token :: rest => (c :: token) :: rest

/-- `*` matches one token, and a final `>` one or more. -/
def matchTokens : List (List Char) → List (List Char) → Bool
  | [['>']], _ :: _ => true
  | p :: ps, t :: ts => (p = ['*'] || p = t) && matchTokens ps ts
  | [], [] => true
  | _, _ => false

/-- The filter subject matches the subject. -/
def subjectMatches (filter subject : String) : Bool :=
  matchTokens (tokens filter.toList) (tokens subject.toList)

/-! ### Deliveries -/

/-- Where a message stands with a consumer. -/
inductive Standing where
  | ready
  | inFlight
  | settled
  deriving DecidableEq

/-- The deliveries of one message to one consumer. -/
structure Delivery where
  count : ℕ := 0
  standing : Standing := .ready

/-- The state of the broker, for the consumers `κ`. -/
structure Stream (κ : Type) where
  messages : List (String × Bytes) := []
  deliveries : κ → ℕ → Delivery := fun _ _ => {}

namespace Stream

variable {κ : Type} [DecidableEq κ]

/-- Store the deliveries of message `n` to consumer `k`. -/
def set (st : Stream κ) (k : κ) (n : ℕ) (d : Delivery) : Stream κ :=
  { st with deliveries := Function.update st.deliveries k (Function.update (st.deliveries k) n d) }

/-- Store a message. -/
def append (st : Stream κ) (subject : String) (data : Bytes) : Stream κ :=
  { st with messages := st.messages ++ [(subject, data)] }

/-- The broker delivers `raw` to consumer `k`. -/
def Delivers (filter : String) (maxDeliver : ℕ) (k : κ) (raw : Raw) (st st' : Stream κ) : Prop :=
  st.messages[raw.delivery]? = some (raw.subject, raw.data) ∧
    subjectMatches filter raw.subject = true ∧
    (st.deliveries k raw.delivery).standing = .ready ∧
    (st.deliveries k raw.delivery).count < maxDeliver ∧
    raw.numDelivered = some ((st.deliveries k raw.delivery).count + 1) ∧
    st' = st.set k raw.delivery ⟨(st.deliveries k raw.delivery).count + 1, .inFlight⟩

/-- What an accepted call of consumer `k` does to a stream with the subjects `subjects`. -/
def answer {C : Type} (subjects : String) (st : Stream κ) (k : κ) : Call C → Stream κ
  | .ack n | .term n => st.set k n { st.deliveries k n with standing := .settled }
  | .nak n _ => st.set k n { st.deliveries k n with standing := .ready }
  | .publish subject data => if subjectMatches subjects subject then st.append subject data else st
  | _ => st

@[simp] theorem deliveries_set_self (st : Stream κ) (k : κ) (n : ℕ) (d : Delivery) :
    (st.set k n d).deliveries k n = d := by
  simp [set]

theorem deliveries_answer_nak {C : Type} (subjects : String) (st : Stream κ) (k : κ) (n c : ℕ)
    (delay : Option ℕ) :
    ((st.set k n ⟨c, .inFlight⟩).answer subjects k (.nak n delay : Call C)).deliveries k n =
      ⟨c, .ready⟩ := by
  simp only [answer, deliveries_set_self]

theorem deliveries_set (st : Stream κ) (k j : κ) (n m : ℕ) (d : Delivery) :
    (st.set k n d).deliveries j m = if j = k ∧ m = n then d else st.deliveries j m := by
  by_cases hj : j = k
  · subst hj
    by_cases hm : m = n
    · subst hm
      simp
    · simp [set, hm]
  · simp [set, hj]

/-- No message was handed back: what may be delivered was never delivered. -/
def NeverBack (st : Stream κ) : Prop :=
  ∀ k n, (st.deliveries k n).standing = .ready → (st.deliveries k n).count = 0

theorem NeverBack.set {st : Stream κ} (h : st.NeverBack) {k : κ} {n : ℕ} {d : Delivery}
    (hd : d.standing ≠ .ready) : (st.set k n d).NeverBack := by
  intro j m hready
  rw [deliveries_set] at hready ⊢
  split at hready
  · exact absurd hready hd
  · rename_i hne
    rw [if_neg hne]
    exact h j m hready

end Stream

end Omniscience.Queue
