import Owl.HashmapRefine

/-!
The public interface of `hashmap.c` over whole sequences of calls, against the
map that the calls describe: a key is present from a `hashmap_put` of it until a
removal, with the value of the last `hashmap_put`. `hashmap_put` looks for a free
slot or an equal key, whichever comes first, and counts one more element in both
cases. As long as every key is absent when it is put, the table is that map in
every state; the first `hashmap_put` of a present key leaves a length that is
one too large, and behind a hole it leaves the old pair in the table as well.
-/

namespace Owl.Hashmap

inductive MapOp (K V : Type) where
  | put (key : K) (value : V)
  | get (key : K) (remove : Bool)
  | iterate

variable {K V : Type} [DecidableEq K]

section Calls

variable (hash : K → UInt64) (alloc : Nat → Bool)

def mapStep (m : HashmapMap K V) : MapOp K V → HashmapMap K V
  | .put key value => (hashmapPut hash alloc m key value).2
  | .get key remove => (hashmapGet hash m key remove).2.2
  | .iterate => m

def mapRun (m : HashmapMap K V) (ops : List (MapOp K V)) : HashmapMap K V :=
  ops.foldl (mapStep hash alloc) m

def Returns (m : HashmapMap K V) : MapOp K V → Prop
  | .put key value => (hashmapPut hash alloc m key value).1 = .ok
  | .get _ _ => True
  | .iterate => True

def PutsReturn : HashmapMap K V → List (MapOp K V) → Prop
  | _, [] => True
  | m, op :: rest => Returns hash alloc m op ∧ PutsReturn (mapStep hash alloc m op) rest

instance (m : HashmapMap K V) : DecidablePred (Returns hash alloc m)
  | .put _ _ => inferInstanceAs (Decidable (_ = _))
  | .get _ _ => .isTrue trivial
  | .iterate => .isTrue trivial

instance decidablePutsReturn : (m : HashmapMap K V) → (ops : List (MapOp K V)) →
    Decidable (PutsReturn hash alloc m ops)
  | _, [] => .isTrue trivial
  | m, op :: rest =>
      have := decidablePutsReturn (mapStep hash alloc m op) rest
      inferInstanceAs (Decidable (_ ∧ _))

end Calls

def specStep (spec : K → Option V) : MapOp K V → K → Option V
  | .put key value => Function.update spec key (some value)
  | .get key true => Function.update spec key none
  | .get _ false => spec
  | .iterate => spec

def specRun (spec : K → Option V) (ops : List (MapOp K V)) : K → Option V :=
  ops.foldl specStep spec

def Fresh (spec : K → Option V) : MapOp K V → Prop
  | .put key _ => spec key = none
  | .get _ _ => True
  | .iterate => True

def PutsFresh : (K → Option V) → List (MapOp K V) → Prop
  | _, [] => True
  | spec, op :: rest => Fresh spec op ∧ PutsFresh (specStep spec op) rest

instance (spec : K → Option V) : DecidablePred (Fresh spec)
  | .put _ _ => inferInstanceAs (Decidable (_ = none))
  | .get _ _ => .isTrue trivial
  | .iterate => .isTrue trivial

instance decidablePutsFresh : (spec : K → Option V) → (ops : List (MapOp K V)) →
    Decidable (PutsFresh spec ops)
  | _, [] => .isTrue trivial
  | spec, op :: rest =>
      have := decidablePutsFresh (specStep spec op) rest
      inferInstanceAs (Decidable (_ ∧ _))

/-- The table answers as the map `spec`: lookups with and without removal, the
length, and the pairs of an iteration. -/
structure IsMap (hash : K → UInt64) (m : HashmapMap K V) (spec : K → Option V) : Prop where
  get : ∀ key remove, (hashmapGet hash m key remove).1 =
      (if (spec key).isSome then .ok else .missing) ∧ (hashmapGet hash m key remove).2.1 = spec key
  length : hashmapLength m = ({key | (spec key).isSome} : Set K).ncard
  once : ((hashmapIterate m).map Prod.fst).Nodup
  pairs : ∀ key value, (key, value) ∈ hashmapIterate m ↔ spec key = some value

variable {hash : K → UInt64}

theorem isMap_contents (m : HashmapMap K V) (valid : Valid hash m) : IsMap hash m m.contents where
  get := by
    intro key remove
    cases remove with
    | true =>
        obtain ⟨status, value, -⟩ := hashmapGet_remove m valid key
        exact ⟨status, value⟩
    | false =>
        rw [hashmapGet_keep m valid key]
        cases m.contents key <;> exact ⟨rfl, rfl⟩
  length := by
    rw [contents_ncard m valid]
    exact valid.counted
  once := by
    rw [hashmapIterate_entries]
    exact valid.distinct
  pairs := by
    intro key value
    rw [hashmapIterate_entries, contents_some_iff m valid.distinct]

/-- Whether the key is there or not, the table counts one element more. -/
theorem hashmapPutFuel_size (alloc : Nat → Bool) (fuel : Nat) (m after : HashmapMap K V)
    (valid : Valid hash m) (key : K) (value : V)
    (done : hashmapPutFuel hash alloc fuel m key value = (.ok, after)) :
    after.size = m.size + 1 := by
  induction fuel using Nat.strong_induction_on generalizing m with
  | _ fuel ih =>
      cases hashmapPutFuel_puts done with
      | found slot => rfl
      | @again less next _ _ full grown later =>
          obtain ⟨nextValid, same⟩ :=
            hashmapRehash_keeps _ (hashmapPutFuel_inserts alloc less) alloc m next valid grown
          have counted : next.size = m.size := by
            rw [nextValid.counted, valid.counted, same.length_eq]
          rw [ih less (Nat.lt_succ_self less) next nextValid later, counted]

/-- A `hashmap_put` of a present key is counted although no key is added. -/
theorem put_present_not_isMap (alloc : Nat → Bool) (m : HashmapMap K V) (valid : Valid hash m)
    (key : K) (value : V) (present : m.contents key ≠ none)
    (returned : (hashmapPut hash alloc m key value).1 = .ok) :
    ¬ IsMap hash (hashmapPut hash alloc m key value).2
      (Function.update m.contents key (some value)) := by
  intro answers
  have size := hashmapPutFuel_size alloc 30 m _ valid key value (Prod.ext returned rfl)
  have keys : ({other | (Function.update m.contents key (some value) other).isSome} : Set K) =
      {other | (m.contents other).isSome} := by
    ext other
    by_cases same : other = key
    · subst same
      simpa using Option.isSome_iff_ne_none.mpr present
    · simp [Function.update_of_ne same]
  have length := answers.length
  rw [keys, contents_ncard m valid] at length
  have counted := valid.counted
  unfold hashmapLength at length
  change (hashmapPut hash alloc m key value).2.size = m.size + 1 at size
  omega

theorem mapStep_fresh (alloc : Nat → Bool) (m : HashmapMap K V) (valid : Valid hash m)
    (op : MapOp K V) (fresh : Fresh m.contents op) (returned : Returns hash alloc m op) :
    Valid hash (mapStep hash alloc m op) ∧
      (mapStep hash alloc m op).contents = specStep m.contents op := by
  cases op with
  | put key value => exact hashmapPut_fresh alloc m _ valid key value fresh (Prod.ext returned rfl)
  | get key remove =>
      cases remove with
      | true =>
          obtain ⟨-, -, after, contents⟩ := hashmapGet_remove m valid key
          exact ⟨after, contents⟩
      | false =>
          have kept : mapStep hash alloc m (.get key false) = m := by
            show (hashmapGet hash m key false).2.2 = m
            rw [hashmapGet_keep m valid key]
            cases m.contents key <;> rfl
          rw [kept]
          exact ⟨valid, rfl⟩
  | iterate => exact ⟨valid, rfl⟩

/-- From a valid table on, all states are the described map exactly when no present
key is put. -/
theorem mapRun_isMap_iff (alloc : Nat → Bool) (ops : List (MapOp K V)) (m : HashmapMap K V)
    (valid : Valid hash m) (returned : PutsReturn hash alloc m ops) :
    (∀ earlier, earlier <+: ops →
      IsMap hash (mapRun hash alloc m earlier) (specRun m.contents earlier)) ↔
        PutsFresh m.contents ops := by
  induction ops generalizing m with
  | nil =>
      refine ⟨fun _ => trivial, fun _ earlier start => ?_⟩
      obtain rfl : earlier = [] := List.prefix_nil.mp start
      exact isMap_contents m valid
  | cons op rest ih =>
      obtain ⟨first, later⟩ := returned
      constructor
      · intro always
        have fresh : Fresh m.contents op := by
          cases op with
          | put key value =>
              by_contra present
              have answers := always [.put key value] ⟨rest, rfl⟩
              exact put_present_not_isMap alloc m valid key value present first answers
          | get => trivial
          | iterate => trivial
        obtain ⟨after, contents⟩ := mapStep_fresh alloc m valid op fresh first
        refine ⟨fresh, ?_⟩
        rw [← contents]
        refine (ih _ after later).mp fun earlier start => ?_
        rw [contents]
        exact always (op :: earlier) (List.cons_prefix_cons.mpr ⟨rfl, start⟩)
      · rintro ⟨fresh, rests⟩ earlier start
        obtain ⟨after, contents⟩ := mapStep_fresh alloc m valid op fresh first
        rw [← contents] at rests
        cases earlier with
        | nil => exact isMap_contents m valid
        | cons other begun =>
            obtain ⟨rfl, shorter⟩ := List.cons_prefix_cons.mp start
            have answers := (ih _ after later).mpr rests begun shorter
            rw [contents] at answers
            exact answers

/-- The hash map is a map in every state of a sequence of calls if and only if no
key is put while it is present. -/
theorem hashmap_isMap_iff (hash : K → UInt64) (alloc : Nat → Bool) (ops : List (MapOp K V))
    (returned : PutsReturn hash alloc hashmapNew ops) :
    (∀ earlier, earlier <+: ops →
      IsMap hash (mapRun hash alloc hashmapNew earlier) (specRun (fun _ => none) earlier)) ↔
        PutsFresh (fun _ => none) ops := by
  have start := mapRun_isMap_iff alloc ops hashmapNew hashmapNew_valid returned
  rwa [hashmapNew_contents] at start

def oneSlot : Bool → UInt64 := fun _ => 0

/-- Removing one key and putting it again is within the condition. -/
theorem hashmap_isMap_again :
    IsMap oneSlot (mapRun oneSlot (fun _ => true) hashmapNew
      [.put true 1, .put false 2, .get true true, .put true 3])
      (specRun (fun _ => none) [.put true 1, .put false 2, .get true true, .put true 3]) := by
  have returned : PutsReturn oneSlot (fun _ => true) (hashmapNew : HashmapMap Bool Nat)
      [.put true 1, .put false 2, .get true true, .put true 3] :=
    by decide +kernel
  have fresh : PutsFresh (fun _ : Bool => (none : Option Nat))
      [.put true 1, .put false 2, .get true true, .put true 3] :=
    by decide +kernel
  exact (hashmap_isMap_iff oneSlot (fun _ => true) _ returned).mpr fresh _ (List.prefix_refl _)

/-- The second `hashmap_put` finds a hole in front of the pair it should replace:
two elements for one key, and after a removal the old value is back. -/
theorem put_present_shadows :
    PutsReturn oneSlot (fun _ => true) (hashmapNew : HashmapMap Bool Nat)
        [.put true 1, .put false 2, .get true true, .put false 3, .get false true] ∧
      ¬ IsMap oneSlot (mapRun oneSlot (fun _ => true) hashmapNew
          [.put true 1, .put false 2, .get true true, .put false 3, .get false true])
        (specRun (fun _ => none)
          [.put true 1, .put false 2, .get true true, .put false 3, .get false true]) := by
  refine ⟨by decide +kernel, ?_⟩
  intro answers
  have found : (hashmapGet oneSlot (mapRun oneSlot (fun _ => true) (hashmapNew : HashmapMap Bool Nat)
      [.put true 1, .put false 2, .get true true, .put false 3, .get false true]) false false).2.1 =
        some 2 := by
    decide +kernel
  have wanted := (answers.get false false).2
  rw [found] at wanted
  revert wanted
  decide +kernel

end Owl.Hashmap
