import Omniscience.Admission.Webhooks
import Mathlib.Data.List.Flatten

/-!
# Acceptance of webhook deliveries

What is accepted in a run of `receive_webhook`.

* `live_after` : the delivery ids that are live are those of the deliveries accepted since the
  cutoff, so that an id is accepted again only after the window (`accepted_once`);
* `accepted_iff` : a signed delivery is accepted if and only if the bucket of its source holds a
  token, its payload is recent, and its id is not live;
* `deliveries_independent` : hence, in a run in which every request meets `Undisturbing`, what is
  accepted of a source depends on its signed deliveries only.
-/

namespace Omniscience.Webhooks

open Admission Recent List

/-! ### The bucket of a source -/

/-- What a bucket holds at a time. -/
def tokensAt (rpm : ℤ) (bucket : ℚ × ℚ) (now : ℚ) : ℚ :=
  (⟨rpm, rpm / 60⟩ : TokenBucket.Budget ℚ).tokensAt (asBucket bucket) now

/-- The bucket has a token to give; a bucket that does not exist yet starts full. -/
def HoldsToken (rpm : ℤ) (bucket : Option (ℚ × ℚ)) (now : ℚ) : Prop :=
  ∀ b ∈ bucket, 1 ≤ tokensAt rpm b now

/-- The bucket after a request. -/
def bucketAfter (rpm : ℤ) (bucket : Option (ℚ × ℚ)) (now : ℚ) : ℚ × ℚ :=
  match bucket with
  | none => (rpm - 1, now)
  | some b =>
    if 1 ≤ tokensAt rpm b now then (tokensAt rpm b now - 1, now)
    else if rpm = 0 then b
    else (tokensAt rpm b now, now)

theorem checkSourceRateLimit_spec (buckets : Buckets String) (sourceId : String) (rpm : ℤ)
    (now : ℚ) :
    (∀ other, (checkSourceRateLimit buckets sourceId rpm now).1.get? other =
      if other = sourceId then some (bucketAfter rpm (buckets.get? sourceId) now)
      else buckets.get? other) ∧
    ((∃ wait, (checkSourceRateLimit buckets sourceId rpm now).2 = .ok (true, wait)) ↔
      HoldsToken rpm (buckets.get? sourceId) now) := by
  have hset (bucket : ℚ × ℚ) (other : String) : (buckets.set sourceId bucket).get? other =
      if other = sourceId then some bucket else buckets.get? other := by
    split_ifs with h
    · rw [h, Dict.get?_set_self]
    · exact Dict.get?_set_ne _ _ h
  unfold checkSourceRateLimit
  cases hget : buckets.get? sourceId with
  | none =>
    refine ⟨hset _, fun _ => ?_, fun _ => ⟨0, rfl⟩⟩
    rintro b ⟨⟩
  | some b =>
    by_cases htoken : 1 ≤ tokensAt rpm b now
    · have hspec : 1 ≤ min (rpm : ℚ) (b.1 + (now - b.2) * ((rpm : ℚ) / 60)) := htoken
      dsimp only
      rw [if_pos hspec, bucketAfter, if_pos htoken]
      refine ⟨hset _, fun _ => ?_, fun _ => ⟨0, rfl⟩⟩
      rintro b' ⟨⟩
      exact htoken
    · have hspec : ¬ 1 ≤ min (rpm : ℚ) (b.1 + (now - b.2) * ((rpm : ℚ) / 60)) := htoken
      have hno : ¬ HoldsToken rpm (some b) now := fun h => htoken (h b rfl)
      dsimp only
      rw [if_neg hspec, bucketAfter, if_neg htoken]
      by_cases hrpm : rpm = 0
      · rw [if_pos (by rw [hrpm]; norm_num), if_pos hrpm]
        refine ⟨fun other => ?_, ?_, fun h => absurd h hno⟩
        · split_ifs with h
          · rw [h, hget]
          · rfl
        · rintro ⟨wait, ⟨⟩⟩
      · have hrate : (rpm : ℚ) / 60 ≠ 0 := div_ne_zero (by exact_mod_cast hrpm) (by norm_num)
        rw [if_neg hrate, if_neg hrpm]
        refine ⟨hset _, ?_, fun h => absurd h hno⟩
        rintro ⟨wait, ⟨⟩⟩

/-- Two buckets hold the same from a time on. -/
def SameTokens (rpm : ℤ) (start : ℚ) : Option (ℚ × ℚ) → Option (ℚ × ℚ) → Prop
  | none, none => True
  | some b, some b' => 0 ≤ rpm → ∀ now, start ≤ now → tokensAt rpm b now = tokensAt rpm b' now
  | _, _ => False

variable {rpm : ℤ} {start now : ℚ} {bucket bucket' : Option (ℚ × ℚ)}

theorem tokensAt_le (rpm : ℤ) (b : ℚ × ℚ) (now : ℚ) : tokensAt rpm b now ≤ rpm := min_le_left _ _

theorem SameTokens.refl : ∀ bucket, SameTokens rpm start bucket bucket
  | none => trivial
  | some _ => fun _ _ _ => rfl

theorem SameTokens.mono (h : SameTokens rpm start bucket bucket') (hle : start ≤ now) :
    SameTokens rpm now bucket bucket' := by
  cases bucket with
  | none => cases bucket' with
    | none => trivial
    | some b' => exact h.elim
  | some b => cases bucket' with
    | none => exact h.elim
    | some b' => exact fun hrpm later hlater => h hrpm later (hle.trans hlater)

theorem SameTokens.holdsToken_iff (h : SameTokens rpm start bucket bucket') (hle : start ≤ now) :
    HoldsToken rpm bucket now ↔ HoldsToken rpm bucket' now := by
  cases bucket with
  | none => cases bucket' with
    | none => rfl
    | some b' => exact h.elim
  | some b => cases bucket' with
    | none => exact h.elim
    | some b' =>
      have hsome (b : ℚ × ℚ) : HoldsToken rpm (some b) now ↔ 1 ≤ tokensAt rpm b now := by
        simp [HoldsToken]
      rw [hsome, hsome]
      by_cases hrpm : 0 ≤ rpm
      · rw [h hrpm now hle]
      · -- with a negative limit a bucket never holds a token
        have hneg (b : ℚ × ℚ) : ¬ 1 ≤ tokensAt rpm b now := by
          have hlt : (rpm : ℚ) < 0 := by exact_mod_cast not_le.1 hrpm
          exact fun hone => absurd (hone.trans (tokensAt_le rpm b now)) (by linarith)
        simp only [hneg]

theorem SameTokens.after (h : SameTokens rpm start bucket bucket') (hle : start ≤ now) :
    SameTokens rpm now (some (bucketAfter rpm bucket now)) (some (bucketAfter rpm bucket' now)) := by
  cases bucket with
  | none => cases bucket' with
    | none => exact SameTokens.refl _
    | some b' => exact h.elim
  | some b => cases bucket' with
    | none => exact h.elim
    | some b' =>
      intro hrpm later hlater
      rw [bucketAfter, bucketAfter, h hrpm now hle]
      split_ifs
      · rfl
      · exact h hrpm later (hle.trans hlater)
      · rfl

theorem SameTokens.denied (h : SameTokens rpm start bucket bucket') (hle : start ≤ now)
    (hno : ¬ HoldsToken rpm bucket now) :
    SameTokens rpm now (some (bucketAfter rpm bucket now)) bucket' := by
  cases bucket with
  | none => exact absurd (fun b hb => by cases hb) hno
  | some b => cases bucket' with
    | none => exact h.elim
    | some b' =>
      have htoken : ¬ 1 ≤ tokensAt rpm b now := by simpa [HoldsToken] using hno
      intro hrpm later hlater
      have hrate : (0 : ℚ) ≤ (rpm : ℚ) / 60 := div_nonneg (by exact_mod_cast hrpm) (by norm_num)
      rw [bucketAfter, if_neg htoken]
      split_ifs
      · exact h hrpm later (hle.trans hlater)
      · rw [← h hrpm later (hle.trans hlater)]
        exact TokenBucket.tokensAt_tokensAt hrate (asBucket b) hlater

/-! ### One request -/

variable {ep : Endpoint} {s : Uuid} {st : State} {r : Request}

/-- The request has this delivery id. -/
def HasId (r : Request) (deliveryId : String) : Prop := extractDeliveryId r.headers = some deliveryId

/-- The id of the request was recorded in the window before it. -/
def IsRepeated (seen : Dict String ℚ) (r : Request) : Prop :=
  ∃ deliveryId, HasId r deliveryId ∧ Live seen deliveryId (r.checked - replayWindowSeconds)

variable {seen : Dict String ℚ}

theorem replayProtection_of_none (h : extractDeliveryId r.headers = none) :
    replayProtection ep seen r = (seen, (checkTimestamp ep r).getD .accepted) := by
  unfold replayProtection
  rw [h]

variable {deliveryId : String}

theorem replayProtection_of_live (h : HasId r deliveryId)
    (hlive : Live seen deliveryId (r.checked - replayWindowSeconds)) :
    replayProtection ep seen r = (purge seen (r.checked - replayWindowSeconds),
      .httpException 400 "bad_request" "Duplicate webhook delivery rejected" none) := by
  unfold replayProtection
  rw [show extractDeliveryId r.headers = some deliveryId from h]
  exact if_pos (contains_purge.2 hlive)

theorem replayProtection_of_not_live (h : HasId r deliveryId)
    (hlive : ¬ Live seen deliveryId (r.checked - replayWindowSeconds)) :
    replayProtection ep seen r =
      match checkTimestamp ep r with
      | some reply => (purge seen (r.checked - replayWindowSeconds), reply)
      | none => (record (purge seen (r.checked - replayWindowSeconds)) deliveryId r.purged
          r.recorded, .accepted) := by
  unfold replayProtection
  rw [show extractDeliveryId r.headers = some deliveryId from h]
  exact if_neg (mt contains_purge.1 hlive)

theorem checkTimestamp_ne_accepted (ep : Endpoint) (r : Request) :
    checkTimestamp ep r ≠ some .accepted := by
  unfold checkTimestamp
  split
  · nofun
  · nofun
  · split_ifs
    · nofun
    · nofun

theorem isRepeated_iff (h : HasId r deliveryId) :
    IsRepeated seen r ↔ Live seen deliveryId (r.checked - replayWindowSeconds) := by
  constructor
  · rintro ⟨other, hother, hlive⟩
    obtain rfl : deliveryId = other := Option.some.inj (h.symm.trans hother)
    exact hlive
  · intro hlive
    exact ⟨deliveryId, h, hlive⟩

theorem replayProtection_accepted_iff : (replayProtection ep seen r).2 = .accepted ↔
      checkTimestamp ep r = none ∧ ¬ IsRepeated seen r := by
  have htimestamp := checkTimestamp_ne_accepted ep r
  cases hid : extractDeliveryId r.headers with
  | none =>
    have hno : ¬ IsRepeated seen r := by
      rintro ⟨deliveryId, hown, -⟩
      rw [HasId, hid] at hown
      cases hown
    rw [replayProtection_of_none hid]
    cases hcheck : checkTimestamp ep r with
    | none => simp [hno]
    | some reply => simpa using fun heq => htimestamp (by rw [hcheck, heq])
  | some deliveryId =>
    rw [isRepeated_iff hid]
    by_cases hlive : Live seen deliveryId (r.checked - replayWindowSeconds)
    · rw [replayProtection_of_live hid hlive]
      simp [hlive]
    · rw [replayProtection_of_not_live hid hlive]
      cases hcheck : checkTimestamp ep r with
      | none => simp [hlive]
      | some reply => simpa using fun heq : reply = _ => htimestamp (by rw [hcheck, heq])

theorem live_replayProtection (hpurged : r.checked ≤ r.purged) {cutoff : ℚ}
    (hcutoff : r.purged - replayWindowSeconds ≤ cutoff) :
    Live (replayProtection ep seen r).1 deliveryId cutoff ↔ Live seen deliveryId cutoff ∨
      ((replayProtection ep seen r).2 = .accepted ∧ HasId r deliveryId ∧ cutoff ≤ r.recorded) := by
  have hchecked : r.checked - replayWindowSeconds ≤ cutoff :=
    (sub_le_sub_right hpurged _).trans hcutoff
  cases hid : extractDeliveryId r.headers with
  | none => simp [replayProtection_of_none hid, HasId, hid]
  | some own =>
    by_cases hlive : Live seen own (r.checked - replayWindowSeconds)
    · rw [replayProtection_of_live hid hlive]
      simpa using live_purge hchecked
    · have haccepted : (replayProtection ep seen r).2 = .accepted ↔ _ :=
        replayProtection_accepted_iff
      rw [isRepeated_iff hid] at haccepted
      rw [haccepted, replayProtection_of_not_live hid hlive]
      cases hcheck : checkTimestamp ep r with
      | some reply => simpa using live_purge hchecked
      | none =>
        simp only [hlive, not_false_eq_true, and_self, true_and, record, HasId, hid,
          Option.some.injEq]
        by_cases hown : deliveryId = own
        · -- an id that is recorded was not live
          have hno : ¬ Live seen own cutoff := fun h => hlive (h.anti hchecked)
          rw [hown, live_set_self]
          simp only [hno, true_and, false_or]
        · rw [live_set_ne hown, live_purge hcutoff, live_purge hchecked]
          simp only [Ne.symm hown, false_and, or_false]

variable {source : Source}

theorem live_afterLimit (hpurged : r.checked ≤ r.purged) {cutoff : ℚ}
    (hcutoff : r.purged - replayWindowSeconds ≤ cutoff) :
    Live (afterLimit ep source seen r).1 deliveryId cutoff ↔ Live seen deliveryId cutoff ∨
      ((afterLimit ep source seen r).2 = .accepted ∧ HasId r deliveryId ∧ cutoff ≤ r.recorded) := by
  unfold afterLimit
  split
  · simp
  · simp
  · exact live_replayProtection hpurged hcutoff

theorem afterLimit_accepted_iff : (afterLimit ep source seen r).2 = .accepted ↔
      verifySignature ep source r = .ok true ∧ checkTimestamp ep r = none ∧
        ¬ IsRepeated seen r := by
  unfold afterLimit
  split
  · next hverify => simp [hverify]
  · next hverify => simp [hverify]
  · next hverify => rw [replayProtection_accepted_iff, hverify, eq_self_iff_true, true_and]

theorem receiveFor_of_holdsToken
    (h : HoldsToken ep.rpm (st.sourceBuckets.get? source.id.str) r.limited) :
    receiveFor ep source st r =
      (⟨(checkSourceRateLimit st.sourceBuckets source.id.str ep.rpm r.limited).1,
        (afterLimit ep source st.seen r).1⟩, (afterLimit ep source st.seen r).2) := by
  obtain ⟨wait, hok⟩ := (checkSourceRateLimit_spec st.sourceBuckets source.id.str ep.rpm
    r.limited).2.2 h
  unfold receiveFor
  split
  · next heq => rw [heq] at hok; cases hok
  · next heq => rw [heq] at hok; cases hok
  · next buckets _ heq => rw [heq]

theorem receiveFor_of_not_holdsToken
    (h : ¬ HoldsToken ep.rpm (st.sourceBuckets.get? source.id.str) r.limited) :
    (receiveFor ep source st r).1 =
        ⟨(checkSourceRateLimit st.sourceBuckets source.id.str ep.rpm r.limited).1, st.seen⟩ ∧
      (receiveFor ep source st r).2 ≠ .accepted := by
  have hno := mt (checkSourceRateLimit_spec st.sourceBuckets source.id.str ep.rpm r.limited).2.1 h
  unfold receiveFor
  split
  · next heq => exact ⟨by rw [heq], nofun⟩
  · next heq => exact ⟨by rw [heq], nofun⟩
  · next wait heq => exact absurd ⟨wait, by rw [heq]⟩ hno

theorem receiveFor_buckets (source : Source) (st : State) (r : Request) :
    (receiveFor ep source st r).1.sourceBuckets =
      (checkSourceRateLimit st.sourceBuckets source.id.str ep.rpm r.limited).1 := by
  by_cases h : HoldsToken ep.rpm (st.sourceBuckets.get? source.id.str) r.limited
  · rw [receiveFor_of_holdsToken h]
  · rw [(receiveFor_of_not_holdsToken h).1]

/-- **What a request makes live**: the id of a delivery that is accepted. -/
theorem live_receiveWebhook (st : State) (hpurged : r.checked ≤ r.purged) {cutoff : ℚ}
    (hcutoff : r.purged - replayWindowSeconds ≤ cutoff) :
    Live (receiveWebhook ep st r).1.seen deliveryId cutoff ↔ Live st.seen deliveryId cutoff ∨
      ((receiveWebhook ep st r).2 = .accepted ∧ HasId r deliveryId ∧ cutoff ≤ r.recorded) := by
  unfold receiveWebhook
  split
  · simp
  · next source _ =>
    by_cases h : HoldsToken ep.rpm (st.sourceBuckets.get? source.id.str) r.limited
    · rw [receiveFor_of_holdsToken h]
      exact live_afterLimit hpurged hcutoff
    · obtain ⟨hstate, hreply⟩ := receiveFor_of_not_holdsToken h
      rw [hstate]
      simp only [hreply, false_and, or_false]

theorem not_isRepeated_of_accepted (h : (receiveWebhook ep st r).2 = .accepted) :
    ¬ IsRepeated st.seen r := by
  unfold receiveWebhook at h
  split at h
  · cases h
  · next source _ =>
    by_cases htoken : HoldsToken ep.rpm (st.sourceBuckets.get? source.id.str) r.limited
    · rw [receiveFor_of_holdsToken htoken] at h
      exact (afterLimit_accepted_iff.1 h).2.2
    · exact absurd h (receiveFor_of_not_holdsToken htoken).2

theorem bucket_receiveWebhook (s : Uuid) (st : State) (r : Request) :
    (receiveWebhook ep st r).1.sourceBuckets.get? s.str =
      if isFor ep s r then some (bucketAfter ep.rpm (st.sourceBuckets.get? s.str) r.limited)
      else st.sourceBuckets.get? s.str := by
  unfold receiveWebhook isFor
  split
  · next hsource => simp [hsource]
  · next source hsource =>
    have hspec := (checkSourceRateLimit_spec st.sourceBuckets source.id.str ep.rpm r.limited).1
    rw [receiveFor_buckets, hspec, hsource]
    by_cases hid : source.id = s
    · simp [hid]
    · have hstr : s.str ≠ source.id.str := fun h => hid (Uuid.str_injective h).symm
      simp [hid, hstr]

theorem not_accepted_of_not_holdsToken (hfor : isFor ep s r = true)
    (h : ¬ HoldsToken ep.rpm (st.sourceBuckets.get? s.str) r.limited) :
    (receiveWebhook ep st r).2 ≠ .accepted := by
  unfold isFor at hfor
  obtain ⟨source, hsource, hid⟩ := (Option.any_eq_true _ _).1 hfor
  obtain rfl := of_decide_eq_true hid
  unfold receiveWebhook
  rw [hsource]
  exact (receiveFor_of_not_holdsToken h).2

theorem isFor_of_isAuthentic (h : isAuthentic ep s r = true) : isFor ep s r = true := by
  obtain ⟨source, hsource, hboth⟩ := (Option.any_eq_true _ _).1 h
  exact (Option.any_eq_true _ _).2 ⟨source, hsource, (Bool.and_eq_true_iff.1 hboth).1⟩

theorem verifySignature_of_isAuthentic (h : isAuthentic ep s r = true) :
    ∃ source, ep.source r.sourceName = some source ∧ source.id = s ∧
      verifySignature ep source r = .ok true := by
  obtain ⟨source, hsource, hboth⟩ := (Option.any_eq_true _ _).1 h
  obtain ⟨hid, hsecret⟩ := Bool.and_eq_true_iff.1 hboth
  obtain ⟨secret, hget, hverify⟩ := (Option.any_eq_true _ _).1 hsecret
  refine ⟨source, hsource, of_decide_eq_true hid, ?_⟩
  unfold verifySignature
  rw [hget]
  dsimp only
  split at hverify
  · next valid heq => rw [heq, hverify]
  · cases hverify

/-- **When a signed delivery is accepted.** -/
theorem accepted_iff (h : isAuthentic ep s r = true) : (receiveWebhook ep st r).2 = .accepted ↔
      HoldsToken ep.rpm (st.sourceBuckets.get? s.str) r.limited ∧ checkTimestamp ep r = none ∧
        ¬ IsRepeated st.seen r := by
  obtain ⟨source, hsource, rfl, hverify⟩ := verifySignature_of_isAuthentic h
  unfold receiveWebhook
  rw [hsource]
  dsimp only
  by_cases htoken : HoldsToken ep.rpm (st.sourceBuckets.get? source.id.str) r.limited
  · rw [receiveFor_of_holdsToken htoken, afterLimit_accepted_iff, hverify]
    simp only [htoken, true_and]
  · have hno : (receiveFor ep source st r).2 ≠ .accepted :=
      (receiveFor_of_not_holdsToken htoken).2
    simp only [hno, htoken, false_and]

/-! ### Runs -/

theorem after_concat (ep : Endpoint) (l : List Request) (r : Request) :
    after ep (l ++ [r]) = (receiveWebhook ep (after ep l) r).1 := by
  rw [after, foldl_append]
  rfl

theorem replies_concat (ep : Endpoint) (l : List Request) (r : Request) :
    replies ep (l ++ [r]) = replies ep l ++ [(r, reply ep l r)] := by
  have hfrom : ∀ st, repliesFrom ep st (l ++ [r]) = repliesFrom ep st l ++
      [(r, (receiveWebhook ep (l.foldl (fun st r => (receiveWebhook ep st r).1) st) r).2)] := by
    induction l with
    | nil => exact fun st => rfl
    | cons q rest ih =>
      intro st
      rw [cons_append, repliesFrom, ih, repliesFrom, foldl_cons, cons_append]
  exact hfrom .init

variable {l : List Request}

theorem mem_of_mem_replies {x : Request × Reply} (h : x ∈ replies ep l) : x.1 ∈ l := by
  induction l using List.reverseRecOn with
  | nil => exact absurd h (not_mem_nil (a := x))
  | append_singleton l r ih =>
    rw [replies_concat, mem_append, mem_singleton] at h
    rcases h with h | rfl
    · exact mem_append_left _ (ih h)
    · exact mem_append_right _ (mem_singleton_self r)

/-- The clocks of a request come after those of the requests before it. -/
structure Later (l : List Request) (r : Request) : Prop where
  recorded : ∀ x ∈ l, x.recorded ≤ r.limited
  purged : ∀ x ∈ l, x.purged ≤ r.limited
  checked : r.limited ≤ r.checked
  purge : r.checked ≤ r.purged
  record : r.purged ≤ r.recorded

theorem timely_concat {r : Request} (h : Timely (l ++ [r])) : Timely l ∧ Later l r := by
  unfold Timely at h
  rw [flatMap_append, pairwise_append] at h
  obtain ⟨hl, hr, hcross⟩ := h
  have hown : r.limited ≤ r.checked ∧ r.checked ≤ r.purged ∧ r.purged ≤ r.recorded := by
    simp only [flatMap_cons, flatMap_nil, append_nil, pairwise_cons,
      mem_cons, forall_eq_or_imp] at hr
    exact ⟨hr.1.1, hr.2.1.1, hr.2.2.1.1⟩
  have hmem (x : Request) (hx : x ∈ l) (q : ℚ)
      (hq : q ∈ [x.limited, x.checked, x.purged, x.recorded]) : q ≤ r.limited :=
    hcross q (mem_flatMap.2 ⟨x, hx, hq⟩) r.limited (by simp)
  refine ⟨hl, ⟨fun x hx => ?_, fun x hx => ?_, hown.1, hown.2.1, hown.2.2⟩⟩
  · exact hmem x hx _ (by simp)
  · exact hmem x hx _ (by simp)

/-- **The ids that are live**: those of the deliveries accepted since the cutoff. -/
theorem live_after (h : Timely l) {cutoff : ℚ}
    (hcutoff : ∀ x ∈ l, x.purged - replayWindowSeconds ≤ cutoff) :
    Live (after ep l).seen deliveryId cutoff ↔ ∃ x ∈ replies ep l, x.2 = .accepted ∧
      HasId x.1 deliveryId ∧ cutoff ≤ x.1.recorded := by
  induction l using List.reverseRecOn with
  | nil =>
    constructor
    · exact fun hlive => absurd hlive not_live_empty
    · rintro ⟨x, hx, -⟩
      exact absurd hx (not_mem_nil (a := x))
  | append_singleton l r ih =>
    obtain ⟨hl, hlater⟩ := timely_concat h
    rw [after_concat, replies_concat, live_receiveWebhook _ hlater.purge
      (hcutoff r (mem_append_right _ (mem_singleton_self r))),
      ih hl fun x hx => hcutoff x (mem_append_left _ hx)]
    simp only [mem_append, mem_singleton, or_and_right, exists_or, exists_eq_left]
    rfl

theorem isRepeated_after_iff (h : Timely (l ++ [r])) :
    IsRepeated (after ep l).seen r ↔ ∃ deliveryId, HasId r deliveryId ∧
      ∃ x ∈ replies ep l, x.2 = .accepted ∧ HasId x.1 deliveryId ∧
        r.checked ≤ x.1.recorded + replayWindowSeconds := by
  obtain ⟨hl, hlater⟩ := timely_concat h
  have hcutoff : ∀ x ∈ l, x.purged - replayWindowSeconds ≤ r.checked - replayWindowSeconds :=
    fun x hx => sub_le_sub_right ((hlater.purged x hx).trans hlater.checked) _
  refine exists_congr fun deliveryId => and_congr_right fun _ => ?_
  rw [live_after hl hcutoff]
  simp only [sub_le_iff_le_add]

/-- **A delivery id is accepted again only after the window.** -/
theorem accepted_once (h : Timely l) :
    ((replies ep l).filter fun x => x.2 = .accepted).Pairwise fun x y =>
      ∀ deliveryId, HasId x.1 deliveryId → HasId y.1 deliveryId →
        x.1.recorded + replayWindowSeconds < y.1.checked := by
  induction l using List.reverseRecOn with
  | nil => exact List.Pairwise.nil
  | append_singleton l r ih =>
    rw [replies_concat, filter_append, pairwise_append]
    refine ⟨ih (timely_concat h).1, (pairwise_singleton _ _).sublist filter_sublist, ?_⟩
    intro x hx y hy deliveryId hxid hyid
    obtain ⟨hmem, haccepted⟩ := mem_filter.1 hy
    obtain rfl := mem_singleton.1 hmem
    have hnot := not_isRepeated_of_accepted (of_decide_eq_true haccepted)
    rw [isRepeated_after_iff h] at hnot
    obtain ⟨hxmem, hxaccepted⟩ := mem_filter.1 hx
    exact not_le.1 fun hle =>
      hnot ⟨deliveryId, hyid, x, hxmem, of_decide_eq_true hxaccepted, hxid, hle⟩

/-! ### Independence -/

/-- The id of a delivery was accepted from another source in the window before it. -/
def HeldByOther (ep : Endpoint) (s : Uuid) (before : List Request) (r : Request) : Prop :=
  ∃ deliveryId, HasId r deliveryId ∧ ∃ x ∈ replies ep before, x.2 = .accepted ∧
    isFor ep s x.1 = false ∧ HasId x.1 deliveryId ∧
    r.checked ≤ x.1.recorded + replayWindowSeconds

/-- A request does not touch what the source `s` is rationed by: without a signature it finds no
token of the source, and a signed delivery does not meet its id among those of other sources. -/
structure Undisturbing (ep : Endpoint) (s : Uuid) (before : List Request) (r : Request) :
    Prop where
  token : isFor ep s r = true → isAuthentic ep s r = false →
    ¬ HoldsToken ep.rpm ((after ep before).sourceBuckets.get? s.str) r.limited
  deliveryId : isAuthentic ep s r = true → ¬ HeldByOther ep s before r

/-- A run of such requests. -/
def Undisturbed (ep : Endpoint) (s : Uuid) (l : List Request) : Prop :=
  ∀ before r rest, l = before ++ r :: rest → Undisturbing ep s before r

/-- The signed deliveries of the source. -/
def deliveriesOf (ep : Endpoint) (s : Uuid) (l : List Request) : List Request :=
  l.filter (isAuthentic ep s)

/-- Which of them are accepted. -/
def decisions (ep : Endpoint) (s : Uuid) (l : List Request) : List (Request × Bool) :=
  ((replies ep l).filter fun x => isAuthentic ep s x.1).map fun x =>
    (x.1, decide (x.2 = .accepted))

theorem undisturbed_concat (h : Undisturbed ep s (l ++ [r])) :
    Undisturbed ep s l ∧ Undisturbing ep s l r := by
  refine ⟨fun before q rest hl => ?_, h l r [] rfl⟩
  exact h before q (rest ++ [r]) (by rw [hl, append_assoc, cons_append])

theorem mem_decisions :
    (r, true) ∈ decisions ep s l ↔ isAuthentic ep s r = true ∧ (r, .accepted) ∈ replies ep l := by
  rw [decisions, mem_map]
  constructor
  · rintro ⟨⟨q, said⟩, hmem, heq⟩
    obtain ⟨hmem, hauthentic⟩ := mem_filter.1 hmem
    obtain ⟨rfl, hsaid⟩ := Prod.mk.inj heq
    obtain rfl : said = .accepted := of_decide_eq_true hsaid
    exact ⟨hauthentic, hmem⟩
  · rintro ⟨hauthentic, hmem⟩
    exact ⟨(r, .accepted), mem_filter.2 ⟨hmem, hauthentic⟩, by simp⟩

theorem isAuthentic_of_accepted (h : Undisturbed ep s l) {x : Request × Reply}
    (hx : x ∈ replies ep l) (haccepted : x.2 = .accepted) (hfor : isFor ep s x.1 = true) :
    isAuthentic ep s x.1 = true := by
  induction l using List.reverseRecOn with
  | nil => exact absurd hx (not_mem_nil (a := x))
  | append_singleton l r ih =>
    obtain ⟨hl, hstep⟩ := undisturbed_concat h
    rw [replies_concat, mem_append, mem_singleton] at hx
    rcases hx with hx | rfl
    · exact ih hl hx
    · by_contra hno
      have htoken := hstep.token hfor (by simpa using hno)
      exact not_accepted_of_not_holdsToken hfor htoken haccepted

theorem isRepeated_iff_of_decisions (h : Timely (l ++ [r]))
    (hown : Timely (deliveriesOf ep s l ++ [r])) (hclean : Undisturbed ep s (l ++ [r]))
    (hauthentic : isAuthentic ep s r = true)
    (hdecisions : decisions ep s l = decisions ep s (deliveriesOf ep s l)) :
    IsRepeated (after ep l).seen r ↔ IsRepeated (after ep (deliveriesOf ep s l)).seen r := by
  obtain ⟨hl, hstep⟩ := undisturbed_concat hclean
  rw [isRepeated_after_iff h, isRepeated_after_iff hown]
  refine exists_congr fun deliveryId => and_congr_right fun hid => ?_
  constructor
  · rintro ⟨⟨q, said⟩, hmem, haccepted, hqid, hle⟩
    obtain rfl : said = .accepted := haccepted
    have hfor : isFor ep s q = true := by
      by_contra hother
      exact hstep.deliveryId hauthentic ⟨deliveryId, hid, (q, .accepted), hmem, rfl,
        by simpa using hother, hqid, hle⟩
    have hqauthentic := isAuthentic_of_accepted hl hmem rfl hfor
    have hqmem := mem_decisions.2 ⟨hqauthentic, hmem⟩
    rw [hdecisions] at hqmem
    exact ⟨(q, .accepted), (mem_decisions.1 hqmem).2, rfl, hqid, hle⟩
  · rintro ⟨⟨q, said⟩, hmem, haccepted, hqid, hle⟩
    obtain rfl : said = .accepted := haccepted
    have hqauthentic : isAuthentic ep s q = true :=
      (mem_filter.1 (mem_of_mem_replies hmem)).2
    have hqmem := mem_decisions.2 ⟨hqauthentic, hmem⟩
    rw [← hdecisions] at hqmem
    exact ⟨(q, .accepted), (mem_decisions.1 hqmem).2, rfl, hqid, hle⟩

theorem decisions_concat (ep : Endpoint) (s : Uuid) (l : List Request) (r : Request) :
    decisions ep s (l ++ [r]) = decisions ep s l ++
      if isAuthentic ep s r then [(r, decide (reply ep l r = .accepted))] else [] := by
  rw [decisions, replies_concat, filter_append, map_append]
  congr 1
  split_ifs with h
  · rw [filter_cons_of_pos (by simpa using h)]
    rfl
  · rw [filter_cons_of_neg (by simpa using h)]
    rfl

theorem deliveriesOf_concat (ep : Endpoint) (s : Uuid) (l : List Request) (r : Request) :
    deliveriesOf ep s (l ++ [r]) =
      deliveriesOf ep s l ++ if isAuthentic ep s r then [r] else [] := by
  rw [deliveriesOf, filter_append]
  congr 1
  split_ifs with h
  · exact filter_cons_of_pos h
  · exact filter_cons_of_neg h

theorem timely_deliveriesOf (h : Timely l) : Timely (deliveriesOf ep s l) :=
  h.sublist (filter_sublist.flatMap _)

/-- **The deliveries of a source on their own**: they are accepted as in the whole run, and leave a
bucket that holds the same. -/
theorem run_deliveriesOf (h : Timely l) (hclean : Undisturbed ep s l) :
    decisions ep s l = decisions ep s (deliveriesOf ep s l) ∧
      ∀ start, (∀ x ∈ l, x.recorded ≤ start) →
        SameTokens ep.rpm start ((after ep l).sourceBuckets.get? s.str)
          ((after ep (deliveriesOf ep s l)).sourceBuckets.get? s.str) := by
  induction l using List.reverseRecOn with
  | nil => exact ⟨rfl, fun start _ => SameTokens.refl _⟩
  | append_singleton l r ih =>
    obtain ⟨htimely, hlater⟩ := timely_concat h
    obtain ⟨hl, hstep⟩ := undisturbed_concat hclean
    obtain ⟨hdecisions, htokens⟩ := ih htimely hl
    have hsame := htokens r.limited hlater.recorded
    have hlast : r.limited ≤ r.recorded := hlater.checked.trans (hlater.purge.trans hlater.record)
    have hown : Timely (deliveriesOf ep s (l ++ [r])) := timely_deliveriesOf h
    rw [decisions_concat, deliveriesOf_concat]
    rw [deliveriesOf_concat] at hown
    by_cases hauthentic : isAuthentic ep s r = true
    · rw [if_pos hauthentic] at hown ⊢
      have hfor := isFor_of_isAuthentic hauthentic
      rw [if_pos hauthentic, decisions_concat, if_pos hauthentic]
      refine ⟨?_, fun start hstart => ?_⟩
      · have hreply : (reply ep l r = .accepted) = (reply ep (deliveriesOf ep s l) r = .accepted) :=
          propext <| by
            rw [reply, reply, accepted_iff hauthentic, accepted_iff hauthentic,
              hsame.holdsToken_iff le_rfl,
              isRepeated_iff_of_decisions h hown hclean hauthentic hdecisions]
        simp only [hdecisions, hreply]
      · rw [after_concat, after_concat, bucket_receiveWebhook, bucket_receiveWebhook, if_pos hfor,
          if_pos hfor]
        exact (hsame.after le_rfl).mono
          (hlast.trans (hstart r (mem_append_right _ (mem_singleton_self r))))
    · rw [if_neg hauthentic, if_neg hauthentic, append_nil, append_nil]
      refine ⟨hdecisions, fun start hstart => ?_⟩
      have hle := hlast.trans (hstart r (mem_append_right _ (mem_singleton_self r)))
      rw [after_concat, bucket_receiveWebhook]
      split_ifs with hfor
      · have hno := hstep.token hfor (by simpa using hauthentic)
        exact (hsame.denied le_rfl hno).mono hle
      · exact hsame.mono hle

/-- **What is accepted of a source depends on its signed deliveries only**; and a delivery id is
accepted once in a window. -/
theorem deliveries_independent (ep : Endpoint) (s : Uuid) {l : List Request} (h : Timely l) :
    (∀ l', Timely l' → Undisturbed ep s l → Undisturbed ep s l' →
      deliveriesOf ep s l = deliveriesOf ep s l' → decisions ep s l = decisions ep s l') ∧
    ((replies ep l).filter fun x => x.2 = .accepted).Pairwise fun x y =>
      ∀ deliveryId, HasId x.1 deliveryId → HasId y.1 deliveryId →
        x.1.recorded + replayWindowSeconds < y.1.checked := by
  refine ⟨fun l' h' hclean hclean' hsame => ?_, accepted_once h⟩
  rw [(run_deliveriesOf h hclean).1, (run_deliveriesOf h' hclean').1, hsame]

/-! ### Two sources -/

/-- Two sources with the same secret, one request a minute, and no registered connector. -/
def sampleEndpoint : Endpoint where
  sources := [⟨1#128, "a", "git", some "k"⟩, ⟨2#128, "b", "git", some "k"⟩]
  rpm := 1
  connectorHandler _ := none
  hmacSha256 _ _ := "8bb990c40a7d61cb97597a942125025be50ac8beb74436e3735b98893a7f6620"
  jsonLoads _ := none
  toFloat _ := .ok 0

/-- An empty payload at a time, with a delivery id and a signature or without. -/
def sampleRequest (name : String) (signed : Bool) (now : ℚ) : Request where
  sourceName := name
  headers := ("x-github-delivery", "d") :: if signed then [("x-hub-signature-256",
    "sha256=8bb990c40a7d61cb97597a942125025be50ac8beb74436e3735b98893a7f6620")] else []
  body := []
  limited := now
  checked := now
  purged := now
  recorded := now
  wall := now

/-- One signed delivery, and a later one of the same id. -/
theorem deliveries_independent_sample :
    ((replies sampleEndpoint [sampleRequest "a" true 0, sampleRequest "a" true 1000]).filter
      fun x => x.2 = .accepted).Pairwise fun x y =>
        ∀ deliveryId, HasId x.1 deliveryId → HasId y.1 deliveryId →
          x.1.recorded + replayWindowSeconds < y.1.checked :=
  (deliveries_independent sampleEndpoint 1#128
    (l := [sampleRequest "a" true 0, sampleRequest "a" true 1000])
    (by simp [Timely, sampleRequest])).2

/-- A request without a signature, or a delivery of another source, suppresses a signed delivery. -/
theorem signed_delivery_suppressed :
    (decisions sampleEndpoint 1#128 [sampleRequest "a" true 1]).map Prod.snd = [true] ∧
      (decisions sampleEndpoint 1#128
        [sampleRequest "a" false 0, sampleRequest "a" true 1]).map Prod.snd = [false] ∧
      (decisions sampleEndpoint 1#128
        [sampleRequest "b" true 0, sampleRequest "a" true 1]).map Prod.snd = [false] := by
  decide +kernel

end Omniscience.Webhooks
