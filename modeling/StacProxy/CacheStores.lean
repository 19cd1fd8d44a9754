import Mathlib.Data.List.Infix
import Mathlib.Logic.Function.Basic
import StacProxy.LossyStore
import StacProxy.RequestPath

/-!
# The byte stores of the caches

In memory a store is a bounded list in order of use, in which every entry has a time of its own
and is dropped when it is found too late. In Redis it is a key prefix on a server, and a call that
fails is a miss or an entry that is not kept.
-/

namespace CacheStores

open LossyStore RequestPath

section Memory

structure Entry where
  value : Bytes
  expiresAt : Int

def defaultMaxSize : ℕ := 10000

/-- The size that `NewMemoryStore` gives the list. -/
def storeSize (maxSize : Int) : ℕ := if maxSize ≤ 0 then defaultMaxSize else maxSize.toNat

/-- The most recently used entry first. -/
abbrev MemoryStore := List (String × Entry)

variable {s : MemoryStore} {key key' : String} {e e' : Entry}

def find (s : MemoryStore) (key : String) : Option Entry :=
  (s.find? fun kept => kept.1 = key).map Prod.snd

def remove (s : MemoryStore) (key : String) : MemoryStore := s.filter fun kept => kept.1 ≠ key

/-- An entry that is used comes to the front, and what there is no room for goes. -/
def front (size : ℕ) (s : MemoryStore) (key : String) (e : Entry) : MemoryStore :=
  ((key, e) :: remove s key).take size

def MemoryStore.get (size : ℕ) (s : MemoryStore) (now : Int) (key : String) :
    MemoryStore × Option Bytes :=
  match find s key with
  | none => (s, none)
  | some e =>
    if e.expiresAt < now then (remove s key, none) else (front size s key e, some e.value)

def MemoryStore.set (size : ℕ) (s : MemoryStore) (now : Int) (key : String) (value : Bytes)
    (ttl : Int) : MemoryStore :=
  front size s key ⟨value, now + ttl⟩

theorem find_remove (found : find (remove s key) key' = some e) : find s key' = some e := by
  obtain ⟨kept, search, rfl⟩ := Option.map_eq_some_iff.mp found
  rw [remove, List.find?_filter] at search
  have other : key' ≠ key := by
    have both := List.find?_some search
    simp only [decide_eq_true_eq] at both
    exact both.2 ▸ both.1
  have same : (fun kept : String × Entry => decide (decide (kept.1 ≠ key) = true ∧
      decide (kept.1 = key') = true)) = fun kept => decide (kept.1 = key') := by
    funext kept
    simp only [decide_eq_true_eq, decide_eq_decide]
    exact ⟨And.right, fun same => ⟨same ▸ other, same⟩⟩
  rw [same] at search
  rw [find, search]
  rfl

/-- What is found after an entry came to the front is that entry, or was there before. -/
theorem find_front {size : ℕ} (found : find (front size s key e) key' = some e') :
    key' = key ∧ e' = e ∨ find s key' = some e' := by
  obtain ⟨kept, search, rfl⟩ := Option.map_eq_some_iff.mp found
  have whole := (List.take_prefix size _).find?_eq_some search
  by_cases same : key = key'
  · rw [List.find?_cons_of_pos (by simpa using same)] at whole
    cases whole
    exact .inl ⟨same.symm, rfl⟩
  · rw [List.find?_cons_of_neg (by simpa using same)] at whole
    right
    apply find_remove
    rw [find, whole]
    rfl

/-- The store in memory forgets the least recently used entries and never fails. -/
def memory (maxSize : Int) : Store String Bytes Unit MemoryStore where
  get := fun _ => MemoryStore.get (storeSize maxSize)
  set := fun _ => MemoryStore.set (storeSize maxSize)
  shows := fun s key => (find s key).map fun e => (e.value, e.expiresAt)
  get_found := by
    intro _ s now key value found
    unfold MemoryStore.get at found
    split at found
    · cases found
    · rename_i e stored
      split at found
      · cases found
      · rename_i live
        cases found
        exact ⟨e.expiresAt, by rw [stored]; rfl, not_lt.mp live⟩
  get_shows := by
    intro _ s now key key' shown found
    obtain ⟨e', stored', rfl⟩ := Option.map_eq_some_iff.mp found
    have before : find s key' = some e' := by
      unfold MemoryStore.get at stored'
      split at stored'
      · exact stored'
      · rename_i e stored
        split at stored'
        · exact find_remove stored'
        · rcases find_front stored' with ⟨rfl, rfl⟩ | before
          · exact stored
          · exact before
    rw [before]
    rfl
  set_shows := by
    intro _ s now key value ttl key' shown found
    obtain ⟨e', stored, rfl⟩ := Option.map_eq_some_iff.mp found
    rcases find_front stored with ⟨same, rfl⟩ | before
    · exact .inl ⟨same, rfl⟩
    · exact .inr (by rw [before]; rfl)

end Memory

section Redis

/-- The server: values of keys, with the time they are kept until. -/
abbrev Server := String → Option (Bytes × Int)

/-- How a call ends: it succeeds, or fails although the server may have carried it out. -/
inductive Fault where
  | succeeds
  | fails (carriedOut : Bool)

/-- `KV.Get` under a prefix. Any error is a miss. -/
def kvGet (keyPrefix : String) (fault : Fault) (server : Server) (now : Int) (key : String) :
    Option Bytes :=
  match fault with
  | .fails _ => none
  | .succeeds => (server (keyPrefix ++ key)).bind fun (value, expiry) =>
      if now ≤ expiry then some value else none

/-- `KV.Set` under a prefix. A TTL that is not positive is not sent to the server. -/
def kvSet (keyPrefix : String) (fault : Fault) (server : Server) (now : Int) (key : String)
    (value : Bytes) (ttl : Int) : Server :=
  if ttl ≤ 0 then server
  else match fault with
    | .fails false => server
    | _ => Function.update server (keyPrefix ++ key) (some (value, now + ttl))

/-- The store under a prefix, for whatever calls fail. -/
def kv (keyPrefix : String) : Store String Bytes Fault Server where
  get := fun fault server now key => (server, kvGet keyPrefix fault server now key)
  set := kvSet keyPrefix
  shows := fun server key => server (keyPrefix ++ key)
  get_found := by
    intro fault server now key value found
    cases fault with
    | fails carriedOut => cases found
    | succeeds =>
      obtain ⟨⟨kept, expiry⟩, stored, live⟩ := Option.bind_eq_some_iff.mp found
      obtain ⟨in_time, rfl⟩ : now ≤ expiry ∧ kept = value := by simpa using live
      exact ⟨expiry, stored, in_time⟩
  get_shows := fun shown => shown
  set_shows := by
    intro fault server now key value ttl key' shown found
    unfold kvSet at found
    split at found
    · exact .inr found
    · split at found
      · exact .inr found
      · by_cases same : key' = key
        · subst same
          rw [Function.update_self] at found
          exact .inl ⟨rfl, (Option.some.inj found).symm⟩
        · rw [Function.update_of_ne fun keys => same ((String.append_right_inj _).mp keys)] at found
          exact .inr found

end Redis

end CacheStores
