import Multimethod.Fault
import Multimethod.Frame

/-!
# The inference cache

Results of calls, by function and argument types. An entry is pending while a frame on the
call stack owns it, and finished afterwards. Distinct entries and discarded ones together
never exceed the limit of the cache; a limit below zero leaves room for none.
-/

namespace Multimethod.Inference

/-- An entry whose call is still being analysed. -/
structure Placeholder where
  /-- Tells this placeholder from any other one of the same key. -/
  serial : Nat
  /-- The position on the call stack of the frame that owns it, as the owner tells it. -/
  depth : Int
  /-- What the call is known to return so far. -/
  ret : Ty
  /-- What the passes so far returned. -/
  history : List Ty
  /-- Whether the key was met again during the current pass. -/
  reentered : Bool

/-- The result of a finished call. -/
structure Inferred where
  frame : Frame
  /-- Whether the passes came to rest before their limit. -/
  converged : Bool

/-- An entry of the cache. -/
inductive CacheEntry where
  | pending (placeholder : Placeholder)
  | finished (result : Inferred)

/-- Whether an entry is pending. -/
def CacheEntry.isPending : CacheEntry → Bool
  | pending _ => true
  | finished _ => false

/-- The inference cache. -/
structure Cache where
  maxEntries : Int
  entries : Assoc CacheEntry
  /-- How many pending entries were discarded. -/
  discarded : Nat
  /-- How many placeholders were made. -/
  begun : Nat

namespace Cache

/-- A cache without entries. -/
def empty (maxEntries : Int) : Cache := ⟨maxEntries, [], 0, 0⟩

/-- The key of a call: its function with the ids of its argument types. -/
def keyOf (callee : String) (args : List Ty) : String :=
  callee ++ "(" ++ ", ".intercalate (args.map Ty.id) ++ ")"

/-- The number of entries. -/
def size (cache : Cache) : Nat := cache.entries.length

/-- What counts against the limit. -/
def charged (cache : Cache) : Nat := cache.size + cache.discarded

/-- The entry of a key. -/
def find? (cache : Cache) (key : String) : Option CacheEntry :=
  cache.entries.find? key

/-- The placeholder of a key that is pending. -/
def pending? (cache : Cache) (key : String) : Option Placeholder :=
  match cache.find? key with
  | some (.pending placeholder) => some placeholder
  | _ => none

/-- Makes a key pending. A key without an entry needs room below the limit. -/
def begin (cache : Cache) (key : String) (depth : Int) : Checked Cache :=
  if (cache.find? key).isNone && cache.maxEntries ≤ cache.charged then
    .error (.limit .cacheEntries cache.maxEntries)
  else
    .ok { cache with
      entries := cache.entries.insert key (.pending ⟨cache.begun, depth, .bottom, [], false⟩)
      begun := cache.begun + 1 }

/-- Sets the placeholder of a key. -/
def setPlaceholder (cache : Cache) (key : String) (placeholder : Placeholder) : Cache :=
  { cache with entries := cache.entries.insert key (.pending placeholder) }

/-- Stores the result of a key that has none yet. -/
def finish (cache : Cache) (key : String) (result : Inferred) : Checked Cache :=
  match cache.find? key with
  | some (.finished _) => .error (.entrySealed key)
  | _ => .ok { cache with entries := cache.entries.insert key (.finished result) }

/-- Drops a pending entry whose result depends on a call further out; it stays charged. -/
def discard (cache : Cache) (key : String) : Cache :=
  match cache.pending? key with
  | some _ =>
      { cache with entries := cache.entries.erase key, discarded := cache.discarded + 1 }
  | none => cache

/-- Drops every pending entry, after an entry call was aborted. -/
def discardPlaceholders (cache : Cache) : Cache :=
  { cache with entries := cache.entries.filter fun entry => !entry.2.isPending }

/-- Drops everything. -/
def clear (cache : Cache) : Cache :=
  { cache with entries := [], discarded := 0 }

end Cache

end Multimethod.Inference
