import Mathlib.Data.Option.Basic

/-!
# Timed stores that may forget

A store keeps values under keys up to a time. It may forget a value early and a call may fail,
but what it returns was stored under the key and has time left. What a store shows is an
upper bound on what it can return: reading adds nothing to it, and writing adds what is written.
-/

namespace LossyStore

/-- Calls take a mark that says how they fail, if they do. -/
structure Store (K V φ σ : Type) where
  get : φ → σ → Int → K → σ × Option V
  set : φ → σ → Int → K → V → Int → σ
  shows : σ → K → Option (V × Int)
  get_found : ∀ {f s now key value}, (get f s now key).2 = some value →
    ∃ expiry, shows s key = some (value, expiry) ∧ now ≤ expiry
  get_shows : ∀ {f s now key key' shown}, shows (get f s now key).1 key' = some shown →
    shows s key' = some shown
  set_shows : ∀ {f s now key value ttl key' shown},
    shows (set f s now key value ttl) key' = some shown →
      key' = key ∧ shown = (value, now + ttl) ∨ shows s key' = some shown

end LossyStore
