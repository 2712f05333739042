import Vsector.Impl.Gateway.RateLimit

/-!
# The rate limiter is a sliding window

`rate_limiter_windows`: over any run of requests in the order of their times,
each gets one answer, no window of one second admits more requests of a key
than its quota, and a request is rejected exactly where the second that ends
at it has admitted the quota. The bucket of a key holds, of the times it admitted, those that a
later
request may still count (`Windowed`).
-/

namespace Vsector.Api

open Framework

variable {L : Quotas} {key : String} {answers : List (TimedRequest × Except HttpError String)}

theorem bucket_set (b : Buckets) (k key : String) (window : List ℚ) :
    Buckets.bucket (Dict.set b k window) key = if key = k then window else b.bucket key := by
  simp only [Buckets.bucket, Dict.get?_set]
  split <;> rfl

theorem admitted_append (key : String)
    (answers answers' : List (TimedRequest × Except HttpError String)) :
    admitted key (answers ++ answers') = admitted key answers ++ admitted key answers' :=
  List.filterMap_append ..

theorem mem_admitted {t : ℚ} : t ∈ admitted key answers → t ∈ answers.map (·.1.now) := by
  intro h
  obtain ⟨a, ha, hat⟩ := List.mem_filterMap.mp h
  split at hat
  · cases hat
    exact List.mem_map_of_mem ha
  · cases hat

/-- An entry of the log of a key is a request of it that was admitted. -/
theorem admitted_eq_append_cons {before after : List ℚ} {t : ℚ}
    (h : admitted key answers = before ++ t :: after) :
    ∃ earlier r answer later, answers = earlier ++ (r, answer) :: later ∧
      admitted key earlier = before ∧
      r.key = key ∧ answer.isOk = true ∧ r.now = t := by
  obtain ⟨earlier, rest, rfl, hearlier, hrest⟩ := List.filterMap_eq_append_iff.mp h
  obtain ⟨skipped, ⟨r, answer⟩, later, rfl, hskipped, hr, -⟩ := List.filterMap_eq_cons_iff.mp hrest
  have hnone : admitted key skipped = [] := List.filterMap_eq_nil_iff.mpr hskipped
  simp only [Option.ite_none_right_eq_some, Option.some.injEq] at hr
  refine ⟨earlier ++ skipped, r, answer, later, by rw [List.append_assoc], ?_, hr.1.1, hr.1.2, hr.2⟩
  rw [admitted_append, hnone, List.append_nil]
  exact hearlier

/-- What a run leaves: a bucket holds what a later request may still count, and every request was
rejected exactly where the second before it had admitted the quota. -/
structure Windowed (L : Quotas) (requests : List TimedRequest) (s : Limited) : Prop where
  asked : s.answers.map Prod.fst = requests
  bucket : ∀ key now, (∀ r ∈ requests, r.now ≤ now) →
    recent 1 now (s.buckets.bucket key) = recent 1 now (admitted key s.answers)
  rejected : ∀ before r answer after, s.answers = before ++ (r, answer) :: after →
    (answer = .error rateLimitExceeded ∨ answer = .ok r.key) ∧
      (answer = .error rateLimitExceeded ↔
        L.quota r.key ≤ (recent 1 r.now (admitted r.key before)).length)

theorem rateLimiter_answer (L : Quotas) (r : TimedRequest) (b : Buckets) :
    ((rateLimiter L r b).1 = .error rateLimitExceeded ∨ (rateLimiter L r b).1 = .ok r.key) ∧
      ((rateLimiter L r b).1 = .error rateLimitExceeded ↔
        L.quota r.key ≤ (recent 1 r.now (b.bucket r.key)).length) := by
  simp only [rateLimiter]
  split <;> simp [*]

/-- The bucket of the request's key is pruned, and extended by an admission; the other buckets are
left alone. -/
theorem rateLimiter_bucket (L : Quotas) (r : TimedRequest) (b : Buckets) (key : String) :
    Buckets.bucket (rateLimiter L r b).2 key =
      if key = r.key then recent 1 r.now (b.bucket key) ++ admitted key [(r, (rateLimiter L r b).1)]
        else b.bucket key := by
  by_cases hk : key = r.key
  · subst hk
    simp only [rateLimiter]
    split <;> simp [bucket_set, admitted, Except.isOk, Except.toBool]
  · simp only [rateLimiter, if_neg hk]
    split <;> simp [bucket_set, hk]

theorem admitted_of_ne {r : TimedRequest} {answer : Except HttpError String} (h : key ≠ r.key) :
    admitted key [(r, answer)] = [] := by
  simp [admitted, Ne.symm h]

/-- One request, not earlier than those before it. -/
theorem Windowed.next {requests : List TimedRequest} {s : Limited} (h : Windowed L requests s)
    {r : TimedRequest} (hr : ∀ r' ∈ requests, r'.now ≤ r.now) :
    Windowed L (requests ++ [r]) (s.next L r) where
  asked := by simp [Limited.next, h.asked]
  bucket key now hnow := by
    have hnow' : r.now ≤ now := hnow r (List.mem_append_right _ List.mem_cons_self)
    have hold : recent 1 now (s.buckets.bucket key) = recent 1 now (admitted key s.answers) :=
      h.bucket key now fun r' hr' => hnow r' (List.mem_append_left _ hr')
    simp only [Limited.next, rateLimiter_bucket, admitted_append, recent_append]
    split
    · rw [recent_append, recent_recent hnow', hold]
    · rename_i hne
      rw [admitted_of_ne hne, hold]
      simp [recent]
  rejected before r' answer after he := by
    rcases List.eq_nil_or_concat after with rfl | ⟨after, last, rfl⟩
    · obtain ⟨rfl, hlast⟩ := List.append_inj' he rfl
      simp only [List.cons.injEq, Prod.mk.injEq, and_true] at hlast
      obtain ⟨rfl, rfl⟩ := hlast
      rw [← h.bucket r.key r.now hr]
      exact rateLimiter_answer L r s.buckets
    · rw [List.concat_eq_append, ← List.cons_append, ← List.append_assoc] at he
      exact h.rejected before r' answer after (List.append_inj' he rfl).1

theorem windowed_serveAll {requests : List TimedRequest} (h : requests.Pairwise (·.now ≤ ·.now)) :
    Windowed L requests (serveAll L requests) := by
  induction requests using List.reverseRecOn with
  | nil => exact ⟨rfl, fun _ _ _ => rfl, fun before r answer after he => by simp [serveAll] at he⟩
  | append_singleton requests r ih =>
    rw [List.pairwise_append] at h
    rw [serveAll, List.foldl_append]
    exact (ih h.1).next fun r' hr' => h.2.2 r' hr' r List.mem_cons_self

/-- Every admission found less than the quota in the second before it. -/
theorem Windowed.throttled {requests : List TimedRequest} {s : Limited} (h : Windowed L requests s)
    (key : String) :
    Throttled 1 (L.quota key) (admitted key s.answers) := by
  intro before t after he
  obtain ⟨earlier, r, answer, later, hanswers, rfl, rfl, hok, rfl⟩ := admitted_eq_append_cons he
  rw [← not_le, ← (h.rejected earlier r answer later hanswers).2]
  rintro rfl
  cases hok

/-- Among times that are not later, those of the second before are those of the window that ends
now. -/
theorem recent_eq_window {now : ℚ} {times : List ℚ} (h : ∀ t ∈ times, t ≤ now) :
    (recent 1 now times).length = times.countP fun t => now - 1 < t ∧ t ≤ now := by
  rw [recent, ← List.countP_eq_length_filter]
  refine List.countP_congr fun t ht => ?_
  simp only [decide_eq_true_eq, h t ht, and_true]
  constructor <;> intro hlt <;> linarith

/-- The limiter over a whole run: every request gets one answer, in their order; no window of one
second, closed at either end, admits more than the quota, and a request is rejected exactly where
the second that ends at it has admitted the quota. -/
theorem rate_limiter_windows {requests : List TimedRequest}
    (h : requests.Pairwise (·.now ≤ ·.now)) :
    (serveAll L requests).answers.map Prod.fst = requests ∧
    (∀ key a, (admitted key (serveAll L requests).answers).countP
      (fun t => a ≤ t ∧ t < a + 1) ≤ L.quota key ∧
      (admitted key (serveAll L requests).answers).countP
        (fun t => a < t ∧ t ≤ a + 1) ≤ L.quota key) ∧
    ∀ before r answer after, (serveAll L requests).answers = before ++ (r, answer) :: after →
      (answer = .error rateLimitExceeded ∨ answer = .ok r.key) ∧
      (answer = .error rateLimitExceeded ↔
        (admitted r.key before).countP (fun t => r.now - 1 < t ∧ t ≤ r.now) = L.quota r.key) := by
  have hw := windowed_serveAll (L := L) h
  refine ⟨hw.asked, fun key a => ⟨?_, ?_⟩, fun before r answer after he => ?_⟩
  · refine (hw.throttled key).countP_le fun s t hs ht => ?_
    simp only [decide_eq_true_eq] at hs ht
    linarith [hs.1, ht.2]
  · refine (hw.throttled key).countP_le fun s t hs ht => ?_
    simp only [decide_eq_true_eq] at hs ht
    linarith [hs.1, ht.2]
  · obtain ⟨hanswer, hiff⟩ := hw.rejected before r answer after he
    -- what was admitted before a request is not later than it
    have hle : ∀ t ∈ admitted r.key before, t ≤ r.now := by
      intro t ht
      obtain ⟨a, ha, rfl⟩ := List.mem_map.mp (mem_admitted ht)
      have hsplit := hw.asked
      rw [he, List.map_append, List.map_cons] at hsplit
      rw [← hsplit, List.pairwise_append] at h
      exact h.2.2 a.1 (List.mem_map_of_mem ha) r List.mem_cons_self
    have hthrottled : Throttled 1 (L.quota r.key) (admitted r.key before) := by
      have := hw.throttled r.key
      rw [he, admitted_append] at this
      exact this.of_append
    have hcount : (admitted r.key before).countP (fun t => r.now - 1 < t ∧ t ≤ r.now) ≤
        L.quota r.key := by
      refine hthrottled.countP_le fun s t hs ht => ?_
      simp only [decide_eq_true_eq] at hs ht
      linarith [hs.1, ht.2]
    refine ⟨hanswer, ?_⟩
    rw [hiff, recent_eq_window hle]
    omega

theorem rate_limiter_windows_twice :
    ([⟨0, none⟩, ⟨1 / 2, none⟩] : List TimedRequest).Pairwise (·.now ≤ ·.now) ∧
    (serveAll ⟨∅, 1⟩ [⟨0, none⟩, ⟨1 / 2, none⟩]).answers.map Prod.fst =
      [⟨0, none⟩, ⟨1 / 2, none⟩] ∧
    (∀ key a, (admitted key (serveAll ⟨∅, 1⟩ [⟨0, none⟩, ⟨1 / 2, none⟩]).answers).countP
      (fun t => a ≤ t ∧ t < a + 1) ≤
        Quotas.quota ⟨∅, 1⟩ key ∧
      (admitted key (serveAll ⟨∅, 1⟩ [⟨0, none⟩, ⟨1 / 2, none⟩]).answers).countP
        (fun t => a < t ∧ t ≤ a + 1) ≤
        Quotas.quota ⟨∅, 1⟩ key) :=
  have hsorted : ([⟨0, none⟩, ⟨1 / 2, none⟩] : List TimedRequest).Pairwise (·.now ≤ ·.now) := by
    decide +kernel
  have hwindows := rate_limiter_windows (L := ⟨∅, 1⟩) hsorted
  ⟨hsorted, hwindows.1, hwindows.2.1⟩

end Vsector.Api
