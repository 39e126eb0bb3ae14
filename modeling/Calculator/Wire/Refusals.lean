import Calculator.Http.RequestID
import Calculator.RateLimit.Seconds
import Calculator.Wire.Exchange

/-! # Refusals on the wire

The answer to a client over its budget, and the error that the client makes of it: it
says how long to wait, and it may be retried.
-/

namespace Calculator.Wire

open Api Backend Binary Decimal Http RateLimit Runs

def refuser (h₀ : Header) : Recorder Http.Wire := newRecorder ⟨h₀, []⟩

def refusal (h₀ : Header) (r : Http.Request) (n : ℤ) : List Call :=
  (Op.applyAll (refuser h₀) (tooManyRequests (refuser h₀) r n.toNat)).inner.log

def refusalDocument (h₀ : Header) (r : Http.Request) : Document :=
  Httpapi.document (refuser h₀) r rateLimitedProblem

/-- The client reads the values of a field as one text. -/
def Reads (headers : Text → Option Text) (h : Header) (name : Text) : Prop :=
  headers name = (h name).map (List.intercalate ", ".toList)

theorem parseRetryAfter_one (P : Platform) : parseRetryAfter P (some ['1']) = some 1 := by
  have htrim : Ecma.trim ['1'] ≠ [] := by decide +kernel
  have hfinite : (Ecma.number ['1']).isFinite = true := by decide +kernel
  have hseconds : ceilSeconds (Ecma.number ['1']) = 1 := by decide +kernel
  rw [parseRetryAfter, if_neg htrim, if_pos hfinite, hseconds]

variable {R : RateLimiter} {cfg : AcceptedConfig} {p q : BucketStore R × WithBot ℤ}
  {a : RateLimit.Arrival} {n : ℤ}

/-- Every refusal is an answer that the client makes an error of with the code of the
limit and a second to wait, and the store offers to try again. -/
theorem refusals_reach_client (hR : ExactTokenBucket R cfg)
    (hp : (inOrder R cfg.toRateLimitConfig).Reachable p)
    (hrefused : (inOrder R cfg.toRateLimitConfig).next p (a, .tooManyRequests n) = some q)
    (h₀ : Header) (r : Http.Request) : ∃ header,
      refusal h₀ r n = [.writeHeader (finalStatus rateLimitedProblem) header,
        .write (.document (refusalDocument h₀ r))] ∧
      ∀ parseDate now statusText headers timeoutMs schema,
        Reads headers header "Retry-After".toList →
        ∃ e, apiFetch (browser parseDate now) timeoutMs schema
            (.response (documentResponse (refusalDocument h₀ r) statusText headers)) = .error e ∧
          e.code = "RATE_LIMITED".toList ∧ e.retryAfterSeconds = some 1 ∧
          (Store.Failure.apiError e.code e.requestId).canRetry = true := by
  obtain rfl := refused_seconds hR hp hrefused
  refine ⟨_, rfl, ?_⟩
  intro parseDate now statusText headers timeoutMs schema hreads
  have hseconds : headers "Retry-After".toList = some ['1'] := hreads
  have hstatus : (refusalDocument h₀ r).status = 429 := rfl
  have hcode : (refusalDocument h₀ r).code.text = "RATE_LIMITED".toList := rfl
  have hfetch := apiFetch_documentResponse parseDate now (refusalDocument h₀ r) (by omega)
    (by omega) statusText headers timeoutMs schema
  generalize Float64.ofRat false _ = status at hfetch
  refine ⟨_, hfetch, hcode, ?_, ?_⟩
  · rw [documentError, hseconds]
    exact parseRetryAfter_one _
  · change decide ((refusalDocument h₀ r).code.text ∈ Store.retryableErrorCodes) = true
    rw [hcode]
    decide

def visitor : Http.Request := ⟨⟨"POST".toList, "/api/v1/calculate".toList, .empty⟩, ['x']⟩

/-- The second request in a nanosecond, with a budget of one a second. -/
theorem refusals_reach_client_visit : ∃ header,
    refusal .empty visitor 1 = [.writeHeader (finalStatus rateLimitedProblem) header,
      .write (.document (refusalDocument .empty visitor))] ∧
    ∀ headers, Reads headers header "Retry-After".toList →
      ∃ e, apiFetch (browser (fun _ => none) 0) defaultTimeoutMs none
          (.response (documentResponse (refusalDocument .empty visitor) [] headers)) = .error e ∧
        e.retryAfterSeconds = some 1 := by
  obtain ⟨header, hsent, herror⟩ := refusals_reach_client (exactTokenBucket strict)
    (Machine.Reachable.start.next next_spent) next_refused .empty visitor
  refine ⟨header, hsent, fun headers hreads => ?_⟩
  obtain ⟨e, he, -, hseconds, -⟩ := herror (fun _ => none) 0 [] headers defaultTimeoutMs none hreads
  exact ⟨e, he, hseconds⟩

end Calculator.Wire
