import BlockchainMessaging.Archive
import BlockchainMessaging.Lib.Transform

/-!
# The overloads of the serializer for vectors

`Serializer` has an overload of `serialize` and of `deserialize` that takes a vector.  Each of them
lets `std::transform` write to the first place of a vector that it has just created, and a vector
that has just been created is empty: there is no such place.  Nothing is written when there is
nothing to be written, and everything else ends outside of the vector.

The scalar overloads are any two functions here.

## Main definitions

* `Serializer.serializeVector`, `Serializer.deserializeVector` — the overloads.
* `Serializer.vector_round_trip_iff` — when they are what they are for.
-/

namespace BlockchainMessaging

/-- Writing to the first place of an empty container ends well only if there is nothing to be
written. -/
theorem transform_nil_eq_ok_iff {α β : Type} {f : α → Option β} (xs : List α) (out : List β) :
    transform f xs [] 0 = .ok out ↔ xs = [] ∧ out = [] := by
  rw [transform_eq_ok_iff xs [] out (Nat.le_refl 0)]
  constructor
  · rintro ⟨hle, ys, hys, rfl⟩
    have hxs : xs = [] := List.length_eq_zero_iff.1 (by simpa using hle)
    subst hxs
    cases hys
    exact ⟨rfl, rfl⟩
  · rintro ⟨rfl, rfl⟩
    exact ⟨Nat.le_refl 0, [], rfl, rfl⟩

namespace Serializer

section Vector

variable {Data : Type}

/-- `Serializer::serialize` of a vector: the destination is `serializedBlocks`, which is empty. -/
def serializeVector (serialize : Data → String) (data : List Data) :
    Except TransformError (List String) :=
  transform (fun b => some (serialize b)) data [] 0

/-- `Serializer::deserialize` of a vector: the destination is `deserializedBlocks`, which is
empty. -/
def deserializeVector (deserialize : String → Option Data) (data : List String) :
    Except TransformError (List Data) :=
  transform deserialize data [] 0

variable (serialize : Data → String) (deserialize : String → Option Data)

theorem serializeVector_eq_ok_iff (data : List Data) (out : List String) :
    serializeVector serialize data = .ok out ↔ data = [] ∧ out = [] :=
  transform_nil_eq_ok_iff data out

theorem deserializeVector_eq_ok_iff (data : List String) (out : List Data) :
    deserializeVector deserialize data = .ok out ↔ data = [] ∧ out = [] :=
  transform_nil_eq_ok_iff data out

/-- A vector whose first element is an encoding: its value is written outside. -/
theorem deserializeVector_cons {first : String} (rest : List String) {value : Data}
    (h : deserialize first = some value) :
    deserializeVector deserialize (first :: rest) = .error .outOfBounds := by
  rw [deserializeVector, transform, h]
  rfl

/-- **The overloads for vectors.**  Serializing a vector element by element, deserializing the
encodings element by element, and the round trip of the two, with every write inside of the
destination: each of these is so if and only if the vector is empty. -/
theorem vector_round_trip_iff (data : List Data) :
    (serializeVector serialize data = .ok (data.map serialize) ↔ data = []) ∧
      (deserializeVector deserialize (data.map serialize) = .ok data ↔ data = []) ∧
      ((serializeVector serialize data >>= deserializeVector deserialize) = .ok data ↔
        data = []) := by
  refine ⟨?_, ?_, ?_⟩
  · rw [serializeVector_eq_ok_iff, List.map_eq_nil_iff, and_self]
  · rw [deserializeVector_eq_ok_iff, List.map_eq_nil_iff, and_self]
  · constructor
    · intro h
      cases hserialize : serializeVector serialize data with
      | error e =>
        rw [hserialize] at h
        cases h
      | ok out => exact ((serializeVector_eq_ok_iff serialize data out).1 hserialize).1
    · rintro rfl
      rfl

end Vector

/-- One block is enough. -/
theorem not_vector_round_trip :
    ¬ ∀ data : List Block,
      serializeVector textArchive.serialize data = .ok (data.map textArchive.serialize) ∧
        deserializeVector textArchive.deserialize (data.map textArchive.serialize) = .ok data := by
  intro hall
  have hdata := (serializeVector_eq_ok_iff _ _ _).1 (hall [⟨.COMPLETED, 1000, 1, []⟩]).1
  exact List.cons_ne_nil _ _ hdata.1

end Serializer

end BlockchainMessaging
