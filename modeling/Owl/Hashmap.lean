import Owl.Slots
import Mathlib.Data.List.Perm.Lattice
import Mathlib.Logic.Function.Basic
import Mathlib.Tactic.Ring

/-!
`hashmap.c`: linear probing over at most eight slots, without tombstones. A
slot is `none` when its `in_use` is 0, which is also when the code has set its
key and data to NULL. `table_size` is the length of the array. The hash is a
parameter; `hashmap_hash_int` reduces its 64-bit result by the table size.
Growing is the only allocation: `alloc` tells for which element counts `calloc`
succeeds during one call, and a count of 2^31 or more, which overflows the
`int` product, never does. `hashmap_put` and `hashmap_rehash` call each other;
the recursion is over the number of doublings that an `int` table size still
allows, and `hashmapPut_eq` shows that this bound cannot be observed.
-/

namespace Owl.Hashmap

open Slots

inductive MapStatus where
  | ok
  | omem
  | full
  | missing
  deriving DecidableEq, Repr

structure HashmapMap (K V : Type) where
  slots : List (Option (K × V))
  size : Int

def initialSize : Nat := 256
def maxChainLength : Nat := 8

variable {K V : Type} [DecidableEq K]

def hashmapNew : HashmapMap K V := ⟨List.replicate initialSize none, 0⟩

def keyIs (key : K) : Option (K × V) → Bool
  | some element => decide (element.1 = key)
  | none => false

def freeOrKeyIs (key : K) : Option (K × V) → Bool
  | some element => decide (element.1 = key)
  | none => true

section Operations

variable (hash : K → UInt64)

def hashmapHashInt (m : HashmapMap K V) (key : K) : Nat :=
  (hash key).toNat % m.slots.length

/-- `hashmap_hash`; `none` is `MAP_FULL`. -/
def hashmapHash (m : HashmapMap K V) (key : K) : Option Nat :=
  if m.size ≥ ((m.slots.length / 2 : Nat) : Int) then none
  else findFrom (freeOrKeyIs key) m.slots maxChainLength (hashmapHashInt hash m key)

abbrev Put (K V : Type) := HashmapMap K V → K → V → MapStatus × HashmapMap K V

def rehashLoop (put : Put K V) : List (Option (K × V)) → HashmapMap K V → MapStatus × HashmapMap K V
  | [], m => (.ok, m)
  | none :: rest, m => rehashLoop put rest m
  | some (key, data) :: rest, m =>
      match put m key data with
      | (.ok, m) => rehashLoop put rest m
      | (status, m) => (status, m)

def callocOk (alloc : Nat → Bool) (count : Nat) : Bool := decide (count < 2 ^ 31) && alloc count

def hashmapRehash (put : Put K V) (alloc : Nat → Bool) (m : HashmapMap K V) :
    MapStatus × HashmapMap K V :=
  if callocOk alloc (2 * m.slots.length) then
    -- The new array is in place, with size 0, before the first element moves.
    rehashLoop put m.slots ⟨List.replicate (2 * m.slots.length) none, 0⟩
  else (.omem, m)

/-- The loop of `hashmap_put`, with `fuel` doublings left for it and for the
insertions of its rehashes. -/
def hashmapPutFuel (alloc : Nat → Bool) : Nat → Put K V
  | 0, m, key, value =>
      match hashmapHash hash m key with
      | some index => (.ok, ⟨m.slots.set index (some (key, value)), m.size + 1⟩)
      | none => (.omem, m)
  | fuel + 1, m, key, value =>
      match hashmapHash hash m key with
      | some index => (.ok, ⟨m.slots.set index (some (key, value)), m.size + 1⟩)
      | none =>
          match hashmapRehash (hashmapPutFuel alloc fuel) alloc m with
          | (.omem, m) => (.omem, m)
          -- Only `MAP_OMEM` ends the loop; after any other status the key is tried again.
          | (_, m) => hashmapPutFuel alloc fuel m key value

/-- From one slot on, thirty doublings reach the last `int` table size. -/
def hashmapPut (alloc : Nat → Bool) : Put K V := hashmapPutFuel hash alloc 30

def locate (m : HashmapMap K V) (key : K) : Option Nat :=
  findFrom (keyIs key) m.slots maxChainLength (hashmapHashInt hash m key)

def hashmapGet (m : HashmapMap K V) (key : K) (remove : Bool) :
    MapStatus × Option V × HashmapMap K V :=
  match locate hash m key with
  | some curr =>
      (.ok, (m.slots.getD curr none).map Prod.snd,
        if remove then ⟨m.slots.set curr none, m.size - 1⟩ else m)
  | none => (.missing, none, m)

/-- The stores that a caller makes through the data pointer of `hashmap_get`. -/
def storeData (m : HashmapMap K V) (key : K) (value : V) : HashmapMap K V :=
  match locate hash m key with
  | some curr => ⟨m.slots.set curr (some (key, value)), m.size⟩
  | none => m

end Operations

def hashmapLength (m : HashmapMap K V) : Int := m.size

/-- `hashmap_it_next` for an iterator whose `i + 1` is `pos`: the slot it stops
at, with its element. -/
def hashmapItNext (m : HashmapMap K V) (pos : Nat) : Option (Nat × K × V) :=
  firstFrom m.slots (m.slots.length - pos) pos

def hashmapItRemove (m : HashmapMap K V) (index : Nat) : MapStatus × HashmapMap K V :=
  match m.slots.getD index none with
  | some _ => (.ok, ⟨m.slots.set index none, m.size - 1⟩)
  | none => (.missing, m)

def iterate (m : HashmapMap K V) : Nat → Nat → List (K × V)
  | 0, _ => []
  | fuel + 1, pos =>
      match hashmapItNext m pos with
      | some (index, element) => element :: iterate m fuel (index + 1)
      | none => []

def hashmapIterate (m : HashmapMap K V) : List (K × V) := iterate m (m.slots.length + 1) 0

def HashmapMap.entries (m : HashmapMap K V) : List (K × V) := m.slots.reduceOption

def HashmapMap.keys (m : HashmapMap K V) : List K := m.entries.map Prod.fst

def HashmapMap.contents (m : HashmapMap K V) (key : K) : Option V :=
  (m.entries.find? (fun element => decide (element.1 = key))).map Prod.snd

/-- Keys are distinct, each within eight slots of its hash for the current
table size, and `size` counts the used slots. -/
structure Valid (hash : K → UInt64) (m : HashmapMap K V) : Prop where
  room : 0 < m.slots.length
  window : ∀ (index : Nat) (element : K × V), m.slots[index]? = some (some element) →
    ∃ d < maxChainLength, index = (hashmapHashInt hash m element.1 + d) % m.slots.length
  distinct : m.keys.Nodup
  counted : m.size = m.entries.length

end Owl.Hashmap
