import LocalSend.Qt.Text
import Mathlib.Data.List.AList

/-!
# Throttling of wrong PINs

Times are milliseconds on the limiter's own clock, which the caller passes as `now`.
-/

set_option autoImplicit false

namespace LocalSend

namespace RateLimiter

def FreeAttempts : Nat := 3
def BaseBackoffMs : Nat := 1000
def MaxBackoffMs : Nat := 15 * 60 * 1000
def ForgetAfterMs : Nat := 60 * 60 * 1000
def MaxEntries : Nat := 512

structure Entry where
  failures : Nat := 0
  blockedUntil : Nat := 0

end RateLimiter

structure RateLimiter where
  entries : AList fun _ : QString => RateLimiter.Entry

namespace RateLimiter

def allow (r : RateLimiter) (now : Nat) (key : QString) : Bool :=
  match r.entries.lookup key with
  | none => true
  | some e => e.blockedUntil ≤ now

/-- Seconds until `key` may try again, rounded up. -/
def retryAfter (r : RateLimiter) (now : Nat) (key : QString) : Nat :=
  match r.entries.lookup key with
  | none => 0
  | some e => (e.blockedUntil - now + 999) / 1000

def prune (r : RateLimiter) (now : Nat) : RateLimiter :=
  ⟨r.entries.keys.foldl (fun entries key =>
    match entries.lookup key with
    | some e => if e.blockedUntil ≠ 0 ∧ now > e.blockedUntil + ForgetAfterMs then entries.erase key
        else entries
    | none => entries) r.entries⟩

/-- The doubling loop, from the failure after the free ones to `failures`. -/
def backoff (failures : Nat) : Nat :=
  let doubled := (List.range (failures - (FreeAttempts + 1))).foldl
    (fun backoff _ => if backoff < MaxBackoffMs then backoff * 2 else backoff) BaseBackoffMs
  if doubled > MaxBackoffMs then MaxBackoffMs else doubled

def recordFailure (r : RateLimiter) (now : Nat) (key : QString) : RateLimiter :=
  let r := r.prune now
  if key ∉ r.entries ∧ r.entries.entries.length ≥ MaxEntries then r
  else
    let e := (r.entries.lookup key).getD {}
    let e := { e with failures := e.failures + 1 }
    let e := if e.failures ≤ FreeAttempts then e
      else { e with blockedUntil := now + backoff e.failures }
    ⟨r.entries.insert key e⟩

def recordSuccess (r : RateLimiter) (key : QString) : RateLimiter := ⟨r.entries.erase key⟩

def clear (_ : RateLimiter) : RateLimiter := ⟨∅⟩

end RateLimiter

end LocalSend
