import Omniscience.Base.Mapping
import Omniscience.Lib.Rfc3339

/-!
# The policy check

`check_policy_skew` compares what a deployment trusts with the policy bundle in force: the schema
major, the revision, the signer and the window of validity.  A bundle is any JSON mapping here, as
the source takes it, so that reading it may raise.

* `checkPolicySkew_returns` : the check returns on the bundles that have the shapes it needs.
* `checkPolicySkew_nil` : it finds nothing if and only if the pins match and the comparisons of the
  texts let the time of reference in.

The window is compared as text (`TextWindow`), which is not the order of the instants that the texts
name (`InWindow`): a bound that is missing or empty is not compared, and texts with different
offsets are not in the order of their instants.
-/

namespace Omniscience.Privacy

/-! ### Exceptions and values -/

/-- What an exception is to the handlers of the gate. -/
inductive Raised.Kind where
  /-- A `QuarantineUnavailableError`. -/
  | quarantineUnavailable
  /-- Another `Exception`. -/
  | exception
  /-- A `BaseException` that is no `Exception`. -/
  | baseException
  deriving DecidableEq, Repr

/-- An exception: the name of its class, what the handlers see of it, and its text. -/
structure Raised where
  /-- `type(exc).__name__`. -/
  className : String
  /-- The handlers that catch it. -/
  kind : Raised.Kind
  /-- `str(exc)`. -/
  text : String
  deriving DecidableEq, Repr

/-- The exception of an attribute that a value does not have. -/
def noAttribute (type name : String) : Raised :=
  ⟨"AttributeError", .exception, "'" ++ type ++ "' object has no attribute '" ++ name ++ "'"⟩

/-- The exception of a comparison of two types that have no order. -/
def noOrder (op left right : String) : Raised :=
  ⟨"TypeError", .exception, "'" ++ op ++ "' not supported between instances of '" ++ left ++
    "' and '" ++ right ++ "'"⟩

/-- `value.get`: the members of a mapping. -/
def mapping : Json → Except Raised Metadata
  | .obj members => .ok members
  | value => .error (noAttribute (Json.typeName value) "get")

/-- How a float, given by its text, compares with an integer. -/
structure FloatOrder where
  /-- `value <= n`. -/
  le : String → ℤ → Bool
  /-- `n <= value`. -/
  ge : String → ℤ → Bool

/-- The integer a boolean is. -/
def boolInt (b : Bool) : ℤ := if b then 1 else 0

/-- `value <= n`. -/
def leInt (floats : FloatOrder) (value : Json) (n : ℤ) : Except Raised Bool :=
  match value with
  | .int m => .ok (m ≤ n)
  | .bool b => .ok (boolInt b ≤ n)
  | .float text => .ok (floats.le text n)
  | other => .error (noOrder "<=" (Json.typeName other) "int")

/-- `n <= value`. -/
def intLe (floats : FloatOrder) (n : ℤ) (value : Json) : Except Raised Bool :=
  match value with
  | .int m => .ok (n ≤ m)
  | .bool b => .ok (n ≤ boolInt b)
  | .float text => .ok (floats.ge text n)
  | other => .error (noOrder "<=" "int" (Json.typeName other))

/-- `text < value`. -/
def strLt (text : String) (value : Json) : Except Raised Bool :=
  match value with
  | .str s => .ok (text < s)
  | other => .error (noOrder "<" "str" (Json.typeName other))

/-- `text > value`. -/
def strGt (text : String) (value : Json) : Except Raised Bool :=
  match value with
  | .str s => .ok (s < text)
  | other => .error (noOrder ">" "str" (Json.typeName other))

/-- `value == text`. -/
def strEq (value : Json) (text : String) : Bool :=
  match value with
  | .str s => s = text
  | _ => false

/-- `value in values`, for a tuple of strings. -/
def inTuple (value : Json) (values : List String) : Bool :=
  match value with
  | .str s => values.contains s
  | _ => false

/-! ### The policy -/

/-- `ConsumerPolicyPin`. -/
structure ConsumerPolicyPin where
  componentId : String
  schemaMajor : ℤ
  policyRevisionPin : String
  signerTrustProfile : String

/-- The comparison of the majors: `min_major <= schema_major <= max_major`, or `False` where one is
missing. -/
def majorSupported (floats : FloatOrder) (minMajor maxMajor : Json) (schemaMajor : ℤ) :
    Except Raised Bool :=
  match minMajor, maxMajor with
  | .null, _ => .ok false
  | _, .null => .ok false
  | minMajor, maxMajor =>
    match leInt floats minMajor schemaMajor with
    | .error exc => .error exc
    | .ok false => .ok false
    | .ok true => intLe floats schemaMajor maxMajor

/-- `bound and compare(reference_now, bound)`. -/
def outside (compare : String → Json → Except Raised Bool) (referenceNow : String) (bound : Json) :
    Except Raised Bool :=
  if bound.truthy then compare referenceNow bound else .ok false

/-- `check_policy_skew`. -/
def checkPolicySkew (py : Py) (floats : FloatOrder) (consumerPin : ConsumerPolicyPin)
    (bundle : Metadata) (referenceNow : String) : Except Raised (List String) := do
  let compatibility ← mapping (Mapping.getD bundle "compatibility" (.obj []))
  let minMajor := Mapping.get compatibility "min_supported_major"
  let maxMajor := Mapping.get compatibility "max_supported_major"
  let supported ← majorSupported floats minMajor maxMajor consumerPin.schemaMajor
  let errors :=
    if supported then []
    else ["skew: consumer schema_major " ++ py.repr (.int consumerPin.schemaMajor) ++
      " outside bundle-supported range [" ++ py.repr minMajor ++ ", " ++ py.repr maxMajor ++ "]"]
  let errors :=
    if strEq (Mapping.get bundle "policy_revision") consumerPin.policyRevisionPin then errors
    else errors ++ ["skew: consumer policy_revision_pin " ++
      py.repr (.str consumerPin.policyRevisionPin) ++ " != current bundle policy_revision " ++
      py.repr (Mapping.get bundle "policy_revision")]
  let signer ← mapping (Mapping.getD bundle "signer" (.obj []))
  let errors :=
    if strEq (Mapping.get signer "key_id") consumerPin.signerTrustProfile then errors
    else errors ++ ["skew: consumer signer_trust_profile " ++
      py.repr (.str consumerPin.signerTrustProfile) ++ " != bundle signer key_id " ++
      py.repr (Mapping.get signer "key_id")]
  let issuedAt := Mapping.getD bundle "issued_at" (.str "")
  let expiresAt := Mapping.getD bundle "expires_at" (.str "")
  let early ← outside strLt referenceNow issuedAt
  let errors :=
    if early then
      errors ++ ["skew: bundle not yet valid (issued_at " ++ py.repr issuedAt ++ ")"]
    else errors
  let late ← outside strGt referenceNow expiresAt
  let errors :=
    if late then errors ++ ["skew: bundle expired (expires_at " ++ py.repr expiresAt ++ ")"]
    else errors
  return errors

section Skew

variable (floats : FloatOrder)

/-! ### What the check looks for -/

/-- A value that has an order with the integers. -/
def IsNumber : Json → Prop
  | .int _ => True
  | .bool _ => True
  | .float _ => True
  | _ => False

/-- The majors of the bundle can be compared: one of them is missing, or the first is a number and,
if it is not above the pinned one, the second is a number too. -/
def Comparable (minMajor maxMajor : Json) (schemaMajor : ℤ) : Prop :=
  minMajor = .null ∨ maxMajor = .null ∨ IsNumber minMajor ∧
    (leInt floats minMajor schemaMajor = .ok true → IsNumber maxMajor)

/-- A bound of the window is missing, empty (or another value that is not true) or a text. -/
def BoundText (bound : Json) : Prop := bound.truthy = true → ∃ s, bound = .str s

/-- The bundle can be read: the shapes that the comparisons need. -/
structure Readable (pin : ConsumerPolicyPin) (bundle : Metadata) : Prop where
  /-- `compatibility` is missing or a mapping, with majors that can be compared. -/
  compatibility : ∃ m, Mapping.getD bundle "compatibility" (.obj []) = .obj m ∧
    Comparable floats (Mapping.get m "min_supported_major") (Mapping.get m "max_supported_major")
      pin.schemaMajor
  /-- `signer` is missing or a mapping. -/
  signer : ∃ m, Mapping.getD bundle "signer" (.obj []) = .obj m
  issued : BoundText (Mapping.getD bundle "issued_at" (.str ""))
  expires : BoundText (Mapping.getD bundle "expires_at" (.str ""))

/-- The pins of the consumer match the bundle. -/
structure PinsMatch (pin : ConsumerPolicyPin) (bundle : Metadata) : Prop where
  /-- The pinned major is between those of the bundle. -/
  major : ∃ m, Mapping.getD bundle "compatibility" (.obj []) = .obj m ∧
    leInt floats (Mapping.get m "min_supported_major") pin.schemaMajor = .ok true ∧
    intLe floats pin.schemaMajor (Mapping.get m "max_supported_major") = .ok true
  /-- The revision is the pinned one. -/
  revision : Mapping.get bundle "policy_revision" = .str pin.policyRevisionPin
  /-- The signer is the trusted one. -/
  signer : ∃ m, Mapping.getD bundle "signer" (.obj []) = .obj m ∧
    Mapping.get m "key_id" = .str pin.signerTrustProfile

/-- The comparisons of the texts that the source makes: a bound that is there and not empty. -/
def TextWindow (referenceNow : String) (bundle : Metadata) : Prop :=
  (∀ s, Mapping.getD bundle "issued_at" (.str "") = .str s → s ≠ "" → ¬ referenceNow < s) ∧
    ∀ s, Mapping.getD bundle "expires_at" (.str "") = .str s → s ≠ "" → ¬ s < referenceNow

/-- **The instant of reference is in the window of the bundle**, which has both its bounds. -/
def InWindow (referenceNow : String) (bundle : Metadata) : Prop :=
  ∃ issued expires : String, ∃ i n e : ℚ,
    Mapping.get bundle "issued_at" = .str issued ∧ Mapping.get bundle "expires_at" = .str expires ∧
    Rfc3339.instant issued = some i ∧ Rfc3339.instant referenceNow = some n ∧
    Rfc3339.instant expires = some e ∧ i ≤ n ∧ n ≤ e

/-! ### The check -/

variable {py : Py} {floats}

theorem mapping_eq_ok_iff {value : Json} {m : Metadata} : mapping value = .ok m ↔ value = .obj m := by
  cases value <;> simp [mapping]

theorem strEq_iff {value : Json} {text : String} : strEq value text = true ↔ value = .str text := by
  cases value <;> simp [strEq]

theorem leInt_ok_iff {value : Json} {n : ℤ} :
    (∃ b, leInt floats value n = .ok b) ↔ IsNumber value := by
  cases value <;> simp [leInt, IsNumber]

theorem intLe_ok_iff {value : Json} {n : ℤ} :
    (∃ b, intLe floats n value = .ok b) ↔ IsNumber value := by
  cases value <;> simp [intLe, IsNumber]

theorem majorSupported_of_ne {minMajor maxMajor : Json} (hmin : minMajor ≠ .null)
    (hmax : maxMajor ≠ .null) (n : ℤ) :
    majorSupported floats minMajor maxMajor n =
      leInt floats minMajor n >>= fun b => if b then intLe floats n maxMajor else .ok false := by
  have hstep : majorSupported floats minMajor maxMajor n =
      match leInt floats minMajor n with
      | .error exc => .error exc
      | .ok false => .ok false
      | .ok true => intLe floats n maxMajor := by
    unfold majorSupported
    split
    · exact absurd rfl hmin
    · exact absurd rfl hmax
    · rfl
  rw [hstep]
  cases leInt floats minMajor n with
  | error exc => rfl
  | ok b => cases b <;> rfl

theorem majorSupported_ok_iff {minMajor maxMajor : Json} {n : ℤ} :
    (∃ b, majorSupported floats minMajor maxMajor n = .ok b) ↔
      Comparable floats minMajor maxMajor n := by
  by_cases hmin : minMajor = .null
  · exact ⟨fun _ => .inl hmin, fun _ => ⟨false, by rw [hmin, majorSupported]⟩⟩
  by_cases hmax : maxMajor = .null
  · refine ⟨fun _ => .inr (.inl hmax), fun _ => ⟨false, ?_⟩⟩
    subst hmax
    cases minMajor <;> rfl
  rw [majorSupported_of_ne hmin hmax]
  constructor
  · rintro ⟨b, hb⟩
    obtain ⟨lower, hlower, hupper⟩ := bind_eq_ok_iff.1 hb
    refine .inr (.inr ⟨leInt_ok_iff.1 ⟨lower, hlower⟩, fun hle => ?_⟩)
    rw [hlower] at hle
    cases hle
    exact intLe_ok_iff.1 ⟨b, hupper⟩
  · rintro (h | h | ⟨hnumber, hnext⟩)
    · exact absurd h hmin
    · exact absurd h hmax
    · obtain ⟨lower, hlower⟩ : ∃ b, leInt floats minMajor n = .ok b := leInt_ok_iff.2 hnumber
      rw [hlower, ok_bind]
      cases lower with
      | false => exact ⟨false, rfl⟩
      | true => exact intLe_ok_iff.2 (hnext hlower)

theorem majorSupported_true_iff {minMajor maxMajor : Json} {n : ℤ} :
    majorSupported floats minMajor maxMajor n = .ok true ↔
      leInt floats minMajor n = .ok true ∧ intLe floats n maxMajor = .ok true := by
  by_cases hmin : minMajor = .null
  · rw [hmin]
    simp [majorSupported, leInt]
  by_cases hmax : maxMajor = .null
  · rw [hmax]
    cases minMajor <;> simp [majorSupported, intLe]
  rw [majorSupported_of_ne hmin hmax, bind_eq_ok_iff]
  constructor
  · rintro ⟨lower, hlower, hupper⟩
    cases lower with
    | false => cases hupper
    | true => exact ⟨hlower, hupper⟩
  · rintro ⟨hlower, hupper⟩
    exact ⟨true, hlower, hupper⟩

section Bound

variable {compare : String → Json → Except Raised Bool} {r : String → String → Prop}
  [∀ now s, Decidable (r now s)]

theorem outside_ok_iff (hcompare : ∀ now value b, compare now value = .ok b ↔
    ∃ s, value = .str s ∧ b = decide (r now s)) {now : String} {bound : Json} :
    (∃ b, outside compare now bound = .ok b) ↔ BoundText bound := by
  unfold outside BoundText
  by_cases ht : bound.truthy = true
  · rw [if_pos ht]
    constructor
    · rintro ⟨b, hb⟩ -
      obtain ⟨s, hs, -⟩ := (hcompare now bound b).1 hb
      exact ⟨s, hs⟩
    · intro h
      obtain ⟨s, hs⟩ := h ht
      exact ⟨_, (hcompare now bound _).2 ⟨s, hs, rfl⟩⟩
  · rw [if_neg ht]
    exact ⟨fun _ h => absurd h ht, fun _ => ⟨false, rfl⟩⟩

theorem outside_false_iff (hcompare : ∀ now value b, compare now value = .ok b ↔
    ∃ s, value = .str s ∧ b = decide (r now s)) {now : String} {bound : Json} :
    outside compare now bound = .ok false ↔
      BoundText bound ∧ ∀ s, bound = .str s → s ≠ "" → ¬ r now s := by
  unfold outside BoundText
  by_cases ht : bound.truthy = true
  · rw [if_pos ht, hcompare]
    constructor
    · rintro ⟨s, rfl, hb⟩
      refine ⟨fun _ => ⟨s, rfl⟩, ?_⟩
      rintro s' ⟨⟩ - hr
      simp [hr] at hb
    · rintro ⟨htext, hkept⟩
      obtain ⟨s, rfl⟩ := htext ht
      have hne : s ≠ "" := by simpa [Json.truthy] using ht
      exact ⟨s, rfl, by simpa using hkept s rfl hne⟩
  · rw [if_neg ht]
    refine ⟨fun _ => ⟨fun h => absurd h ht, ?_⟩, fun _ => rfl⟩
    rintro s rfl hne
    exact absurd (by simpa [Json.truthy] using hne) ht

end Bound

theorem order_ok_iff {compare : Json → Except Raised Bool} {p : String → Bool}
    (hstr : ∀ s, compare (.str s) = .ok (p s))
    (htext : ∀ value b, compare value = .ok b → ∃ s, value = .str s) (value : Json) (b : Bool) :
    compare value = .ok b ↔ ∃ s, value = .str s ∧ b = p s := by
  constructor
  · intro h
    obtain ⟨s, rfl⟩ := htext value b h
    rw [hstr] at h
    exact ⟨s, rfl, (Except.ok.inj h).symm⟩
  · rintro ⟨s, rfl, rfl⟩
    exact hstr s

theorem strLt_ok_iff (now : String) (value : Json) (b : Bool) :
    strLt now value = .ok b ↔ ∃ s, value = .str s ∧ b = decide (now < s) :=
  order_ok_iff (fun _ => rfl)
    (fun value _ h => by cases value <;> first | exact ⟨_, rfl⟩ | cases h) value b

theorem strGt_ok_iff (now : String) (value : Json) (b : Bool) :
    strGt now value = .ok b ↔ ∃ s, value = .str s ∧ b = decide (s < now) :=
  order_ok_iff (fun _ => rfl)
    (fun value _ h => by cases value <;> first | exact ⟨_, rfl⟩ | cases h) value b

variable {pin : ConsumerPolicyPin} {bundle : Metadata} {now : String}

/-- What the policy check goes through when it returns. -/
theorem checkPolicySkew_ok {errors : List String}
    (h : checkPolicySkew py floats pin bundle now = .ok errors) :
    ∃ m supported m' early late, Mapping.getD bundle "compatibility" (.obj []) = .obj m ∧
      majorSupported floats (Mapping.get m "min_supported_major") (Mapping.get m "max_supported_major")
        pin.schemaMajor = .ok supported ∧
      Mapping.getD bundle "signer" (.obj []) = .obj m' ∧
      outside strLt now (Mapping.getD bundle "issued_at" (.str "")) = .ok early ∧
      outside strGt now (Mapping.getD bundle "expires_at" (.str "")) = .ok late ∧
      (errors = [] ↔ supported = true ∧
        strEq (Mapping.get bundle "policy_revision") pin.policyRevisionPin = true ∧
        strEq (Mapping.get m' "key_id") pin.signerTrustProfile = true ∧
        early = false ∧ late = false) := by
  unfold checkPolicySkew at h
  obtain ⟨m, hm, h⟩ := bind_eq_ok_iff.1 h
  obtain ⟨supported, hsupported, h⟩ := bind_eq_ok_iff.1 h
  obtain ⟨m', hm', h⟩ := bind_eq_ok_iff.1 h
  obtain ⟨early, hearly, h⟩ := bind_eq_ok_iff.1 h
  obtain ⟨late, hlate, h⟩ := bind_eq_ok_iff.1 h
  refine ⟨m, supported, m', early, late, mapping_eq_ok_iff.1 hm, hsupported, mapping_eq_ok_iff.1 hm',
    hearly, hlate, ?_⟩
  cases h
  cases supported <;> cases strEq (Mapping.get bundle "policy_revision") pin.policyRevisionPin <;>
    cases strEq (Mapping.get m' "key_id") pin.signerTrustProfile <;> cases early <;>
    cases late <;> simp

theorem checkPolicySkew_returns :
    (∃ errors, checkPolicySkew py floats pin bundle now = .ok errors) ↔
      Readable floats pin bundle := by
  constructor
  · rintro ⟨errors, h⟩
    obtain ⟨m, supported, m', early, late, hm, hsupported, hm', hearly, hlate, -⟩ :=
      checkPolicySkew_ok h
    exact ⟨⟨m, hm, majorSupported_ok_iff.1 ⟨supported, hsupported⟩⟩, ⟨m', hm'⟩,
      (outside_ok_iff strLt_ok_iff).1 ⟨early, hearly⟩,
      (outside_ok_iff strGt_ok_iff).1 ⟨late, hlate⟩⟩
  · rintro ⟨⟨m, hm, hmajors⟩, ⟨m', hm'⟩, hissued, hexpires⟩
    obtain ⟨supported, hsupported⟩ := majorSupported_ok_iff.2 hmajors
    obtain ⟨early, hearly⟩ := (outside_ok_iff strLt_ok_iff).2 hissued
    obtain ⟨late, hlate⟩ := (outside_ok_iff strGt_ok_iff).2 hexpires
    unfold checkPolicySkew
    rw [hm, hm', mapping, mapping, ok_bind]
    dsimp only
    rw [hsupported, ok_bind, ok_bind, hearly, ok_bind, hlate, ok_bind]
    exact ⟨_, rfl⟩

theorem checkPolicySkew_nil : checkPolicySkew py floats pin bundle now = .ok [] ↔
      Readable floats pin bundle ∧ PinsMatch floats pin bundle ∧ TextWindow now bundle := by
  constructor
  · intro h
    obtain ⟨m, supported, m', early, late, hm, hsupported, hm', hearly, hlate, hnil⟩ :=
      checkPolicySkew_ok h
    obtain ⟨rfl, hrevision, hsigner, rfl, rfl⟩ := hnil.1 rfl
    exact ⟨checkPolicySkew_returns.1 ⟨[], h⟩,
      ⟨⟨m, hm, majorSupported_true_iff.1 hsupported⟩, strEq_iff.1 hrevision,
        ⟨m', hm', strEq_iff.1 hsigner⟩⟩,
      ((outside_false_iff strLt_ok_iff).1 hearly).2, ((outside_false_iff strGt_ok_iff).1 hlate).2⟩
  · rintro ⟨hreadable, hpins, hwindow⟩
    obtain ⟨errors, h⟩ := checkPolicySkew_returns.2 hreadable
    obtain ⟨m, supported, m', early, late, hm, hsupported, hm', hearly, hlate, hnil⟩ :=
      checkPolicySkew_ok h
    obtain ⟨n, hn, hmajor⟩ := hpins.major
    obtain ⟨n', hn', hkey⟩ := hpins.signer
    obtain rfl : n = m := Json.obj.inj (hn.symm.trans hm)
    obtain rfl : n' = m' := Json.obj.inj (hn'.symm.trans hm')
    have hearly' := (outside_false_iff strLt_ok_iff).2 ⟨hreadable.issued, hwindow.1⟩
    have hlate' := (outside_false_iff strGt_ok_iff).2 ⟨hreadable.expires, hwindow.2⟩
    have hsupported' := majorSupported_true_iff.2 hmajor
    rw [hsupported] at hsupported'
    rw [hearly] at hearly'
    rw [hlate] at hlate'
    rw [h, hnil.2 ⟨Except.ok.inj hsupported', strEq_iff.2 hpins.revision, strEq_iff.2 hkey,
      Except.ok.inj hearly', Except.ok.inj hlate'⟩]

end Skew

end Omniscience.Privacy
