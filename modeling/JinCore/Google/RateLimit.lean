import JinCore.Common.Calls
import JinCore.Lib.SlidingWindow

/-!
# The rate limits of the Google clients (`google-gmail-client.service.ts`,
`google-calendar-client.service.ts`)

Each client keeps the times of its requests of the last minute.

* `checkRateLimit`   a request is counted, or it throws; `checkRateLimit_call`: it is a call of a
  sliding window;
* `Client`           a run, with the times of all requests that did not throw;
* `ExactLimit`, `exact_limit`.
-/

namespace Google
open JsString Common SlidingWindow

/-! ## the two clients -/

structure RateLimit where
  maxRequestsPerMinute : Nat
  windowMs : Int
  error : JinError

def GoogleGmailRateLimitError : JinError where
  message := lit "Límite de tasa (rate limit) de Gmail alcanzado (máximo 60 peticiones/minuto)."
  code := lit "GOOGLE_GMAIL_RATE_LIMIT_EXCEEDED"
  httpStatus := some 429

def GoogleCalendarRateLimitError : JinError where
  message := lit "Límite de tasa (rate limit) de Google Calendar alcanzado (máximo 60 peticiones/minuto)."
  code := lit "GOOGLE_CALENDAR_RATE_LIMIT_EXCEEDED"
  httpStatus := some 429

def gmailRateLimit : RateLimit := ⟨60, 60 * 1000, GoogleGmailRateLimitError⟩

def calendarRateLimit : RateLimit := ⟨60, 60 * 1000, GoogleCalendarRateLimitError⟩

/-! ## a request -/

/-- the `while` loop; `cut` is `now - this.windowMs` -/
def shiftExpired (cut : Int) : List Int → List Int
  | [] => []
  | t :: requestTimestamps =>
    if t ≤ cut then shiftExpired cut requestTimestamps else t :: requestTimestamps

/-- the queue after a request at `now`, and what it throws; the queue is pruned in any case -/
def checkRateLimit (limit : RateLimit) (now : Int) (requestTimestamps : List Int) :
    List Int × Option JinError :=
  let live := shiftExpired (now - limit.windowMs) requestTimestamps
  if live.length ≥ limit.maxRequestsPerMinute then (live, some limit.error)
  else (live ++ [now], none)

theorem shiftExpired_eq (window now : Int) (requestTimestamps : List Int) :
    shiftExpired (now - window) requestTimestamps = prune window now requestTimestamps := by
  induction requestTimestamps with
  | nil => rfl
  | cons t ts ih =>
    rw [shiftExpired, prune, List.dropWhile_cons]
    simp only [decide_eq_true_eq]
    split
    · exact ih
    · rfl

/-- a request is a call of the sliding window -/
theorem checkRateLimit_call (limit : RateLimit) (now : Int) (requestTimestamps : List Int) :
    checkRateLimit limit now requestTimestamps
      = ((call limit.maxRequestsPerMinute limit.windowMs requestTimestamps now).1,
        if (call limit.maxRequestsPerMinute limit.windowMs requestTimestamps now).2 then none
          else some limit.error) := by
  rw [checkRateLimit, shiftExpired_eq, call]
  split
  · rfl
  · rfl

/-! ## a run -/

/-- a client after some requests; `admitted` are the times of those that did not throw -/
structure Client where
  requestTimestamps : List Int
  admitted : List Int
  deriving DecidableEq, Repr

def Client.request (limit : RateLimit) (client : Client) (now : Int) : Client :=
  ⟨(checkRateLimit limit now client.requestTimestamps).1,
    if (checkRateLimit limit now client.requestTimestamps).2 = none then client.admitted ++ [now]
    else client.admitted⟩

/-- the client after requests at these times -/
def clientAfter (limit : RateLimit) (times : List Int) : Client :=
  times.foldl (Client.request limit) ⟨[], []⟩

/-- what the requests at these times throw -/
def thrown (limit : RateLimit) : List Int → List Int → List (Option JinError)
  | _, [] => []
  | requestTimestamps, now :: times =>
    (checkRateLimit limit now requestTimestamps).2 ::
      thrown limit (checkRateLimit limit now requestTimestamps).1 times

def Client.run (client : Client) : Run Int := ⟨client.requestTimestamps, client.admitted⟩

theorem run_request (limit : RateLimit) (client : Client) (now : Int) :
    (client.request limit now).run
      = client.run.step limit.maxRequestsPerMinute limit.windowMs now := by
  cases hcall : (call limit.maxRequestsPerMinute limit.windowMs client.requestTimestamps now).2 with
  | true => simp [Client.run, Client.request, Run.step, checkRateLimit_call, hcall]
  | false => simp [Client.run, Client.request, Run.step, checkRateLimit_call, hcall]

theorem run_clientAfter (limit : RateLimit) (times : List Int) : (clientAfter limit times).run
    = times.foldl (Run.step limit.maxRequestsPerMinute limit.windowMs) .empty := by
  have hfold (client : Client) : (times.foldl (Client.request limit) client).run
      = times.foldl (Run.step limit.maxRequestsPerMinute limit.windowMs) client.run := by
    induction times generalizing client with
    | nil => rfl
    | cons now times ih => exact (ih _).trans (by rw [run_request]; rfl)
  exact hfold _

theorem thrown_outcomes (limit : RateLimit) (requestTimestamps times : List Int) :
    thrown limit requestTimestamps times
      = (outcomes limit.maxRequestsPerMinute limit.windowMs requestTimestamps times).map
        fun letIn => if letIn then none else some limit.error := by
  induction times generalizing requestTimestamps with
  | nil => rfl
  | cons now times ih =>
    rw [thrown, outcomes, List.map_cons, ih, checkRateLimit_call]

/-! ## the limit -/

structure ExactLimit (limit : RateLimit) (times : List Int) : Prop where
  /-- at most 60 requests get through in any minute, whichever of its ends belongs to it -/
  atMost : ∀ a, (clientAfter limit times).admitted.countP (fun t => a ≤ t ∧ t < a + 60000) ≤ 60 ∧
    (clientAfter limit times).admitted.countP (fun t => a < t ∧ t ≤ a + 60000) ≤ 60
  /-- one that throws comes after 60 of the last minute -/
  onlyFull : ∀ pre now post error, times = pre ++ now :: post →
    (checkRateLimit limit now (clientAfter limit pre).requestTimestamps).2 = some error →
      (clientAfter limit pre).admitted.countP (fun t => now - 60000 < t ∧ t ≤ now) = 60
  /-- and leaves the times of the last minute, and what the later ones do, as they are without it -/
  unchanged : ∀ pre now post error, times = pre ++ now :: post →
    (checkRateLimit limit now (clientAfter limit pre).requestTimestamps).2 = some error →
      (checkRateLimit limit now (clientAfter limit pre).requestTimestamps).1
        = (clientAfter limit pre).requestTimestamps.filter (fun t => now - 60000 < t) ∧
      (clientAfter limit (pre ++ [now])).admitted = (clientAfter limit pre).admitted ∧
      thrown limit (clientAfter limit (pre ++ [now])).requestTimestamps post
        = thrown limit (clientAfter limit pre).requestTimestamps post

section
variable {limit : RateLimit} {times : List Int}

theorem countIn_eq (a : Int) (admitted : List Int) :
    countIn 60000 a admitted = admitted.countP fun t => a < t ∧ t ≤ a + 60000 := by
  rw [countIn]
  simp only [Bool.decide_and]

theorem admitted_eq (limit : RateLimit) (times : List Int) : (clientAfter limit times).admitted
    = (times.foldl (Run.step limit.maxRequestsPerMinute limit.windowMs) .empty).admitted := by
  rw [← run_clientAfter]
  rfl

/-- a request that throws prunes the queue -/
theorem request_thrown {now : Int} {queue : List Int} {error : JinError}
    (h : (checkRateLimit limit now queue).2 = some error) :
    (call limit.maxRequestsPerMinute limit.windowMs queue now).2 = false ∧
      (checkRateLimit limit now queue).1 = prune limit.windowMs now queue := by
  have hcall : (call limit.maxRequestsPerMinute limit.windowMs queue now).2 = false := by
    rw [checkRateLimit_call] at h
    cases hin : (call limit.maxRequestsPerMinute limit.windowMs queue now).2 with
    | true =>
      rw [hin] at h
      cases h
    | false => rfl
  refine ⟨hcall, ?_⟩
  rw [checkRateLimit_call]
  show (call _ _ queue now).1 = _
  rw [call] at hcall ⊢
  split
  · rfl
  · next hroom =>
    rw [if_neg hroom] at hcall
    cases hcall

theorem exactLimit_of (hmax : limit.maxRequestsPerMinute = 60) (hwindow : limit.windowMs = 60000)
    (hsorted : times.Pairwise (· ≤ ·)) : ExactLimit limit times := by
  have hpos : 0 < limit.windowMs := by omega
  have hkept {pre post : List Int} {now : Int} (hsplit : times = pre ++ now :: post) :
      Kept 60 60000 (clientAfter limit pre).run now := by
    rw [hsplit, List.pairwise_append] at hsorted
    have hrun := run_clientAfter limit pre
    rw [hmax, hwindow] at hrun
    rw [hrun]
    exact kept_calls (by omega) hsorted.1 fun t ht => hsorted.2.2 t ht now List.mem_cons_self
  have hle (a : Int) :
      (clientAfter limit times).admitted.countP (fun t => a < t ∧ t ≤ a + 60000) ≤ 60 := by
    have hcount : countIn limit.windowMs a
        (times.foldl (Run.step limit.maxRequestsPerMinute limit.windowMs) .empty).admitted
          ≤ limit.maxRequestsPerMinute := countIn_le hpos hsorted a
    rwa [← admitted_eq, hmax, hwindow, countIn_eq] at hcount
  refine ⟨fun a => ⟨?_, hle a⟩, fun pre now post error hsplit hthrown => ?_,
    fun pre now post error hsplit hthrown => ?_⟩
  · -- the times are whole numbers
    refine Nat.le_trans (List.countP_mono_left fun t _ ht => ?_) (hle (a - 1))
    simp only [decide_eq_true_eq] at ht ⊢
    omega
  · have hcall := (request_thrown hthrown).1
    rw [hmax, hwindow] at hcall
    have hfull := (hkept hsplit).rejected_iff.mp hcall
    rw [countIn_eq, Int.sub_add_cancel] at hfull
    exact hfull
  · obtain ⟨hcall, hqueue⟩ := request_thrown hthrown
    have hclient : clientAfter limit (pre ++ [now])
        = ⟨prune limit.windowMs now (clientAfter limit pre).requestTimestamps,
          (clientAfter limit pre).admitted⟩ := by
      rw [clientAfter, List.foldl_append]
      show Client.request limit (clientAfter limit pre) now = _
      rw [Client.request, hqueue, hthrown]
      rfl
    refine ⟨?_, by rw [hclient], ?_⟩
    · obtain ⟨cut, hcut, hfilter⟩ := (hkept hsplit).queue
      rw [hqueue, hwindow]
      refine dropWhile_sorted _ ?_
      rw [show (clientAfter limit pre).requestTimestamps = _ from hfilter]
      exact (hkept hsplit).sorted.sublist List.filter_sublist
    · have hlater : ∀ t ∈ post, now ≤ t := by
        rw [hsplit, List.pairwise_append, List.pairwise_cons] at hsorted
        exact hsorted.2.1.1
      have hcheck := outcomes_rejected hcall hlater
      rw [← hqueue] at hclient
      rw [hclient, thrown_outcomes, thrown_outcomes, ← hcheck, checkRateLimit_call]

end

/-- **the limit of both clients is exact** -/
theorem exact_limit (times : List Int) (hsorted : times.Pairwise (· ≤ ·)) :
    ExactLimit gmailRateLimit times ∧ ExactLimit calendarRateLimit times :=
  ⟨exactLimit_of rfl rfl hsorted, exactLimit_of rfl rfl hsorted⟩

/-- 60 requests at once, one more, and one when the first have just left the window -/
theorem exact_limit_burst : ExactLimit gmailRateLimit (List.replicate 61 0 ++ [60000]) ∧
    (thrown gmailRateLimit [] (List.replicate 61 0 ++ [60000])).count none = 61 :=
  ⟨(exact_limit _ (by decide)).1, by decide⟩

end Google
