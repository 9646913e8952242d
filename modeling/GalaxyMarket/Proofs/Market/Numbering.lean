import Mathlib
import GalaxyMarket.Market.Network

/-!
# Numbering the systems of a galaxy

`SystemIndex.ofGalaxy` lists the systems by ascending slot and remembers the place of each in a map
from keys. The two directions agree: `position?_ofGalaxy_eq_some_iff` says that a system has a
number exactly if it stands at this place of the list, and `exists_system?_ofGalaxy_iff` that the
listed systems are those of the galaxy.

Below them stand the two facts about stores that this rests on. A store lists each slot at most once
(`Slots.toList_pairwise`) and exactly what it would also look up (`Slots.mem_toList_iff`); a map
made from keys of different slots knows exactly these keys (`KeyMap.get?_ofList_eq_some_iff`). What
a map lists is as for a store (`KeyMap.toList_pairwise`, `KeyMap.mem_toList_iff`).
-/

namespace GalaxyMarket

variable {kind : Kind} {β : Type}

/-- What is listed from cells in their order, each entry under a key of the slot of its cell,
ascends by slot. -/
theorem pairwise_slot_filterMap {γ : Type} {f : γ × Nat → Option (Key kind × β)}
    (hf : ∀ {cell entry}, f cell = some entry → entry.1.slot = cell.2) (cells : List γ) :
    (cells.zipIdx.filterMap f).Pairwise fun a b => a.1.slot < b.1.slot := by
  -- Cells are numbered from the front, and what is left out leaves the rest in order.
  have hidx : cells.zipIdx.Pairwise fun a b => a.2 < b.2 := by
    rw [← List.pairwise_map, List.zipIdx_map_snd]
    exact List.pairwise_lt_range'
  refine List.pairwise_filterMap.mpr (hidx.imp fun {a b} hab c hc d hd => ?_)
  rwa [hf hc, hf hd]

/-! ### Stores -/

namespace Slots

/-- A store lists what it looks up. -/
theorem mem_toList_iff {s : Slots kind β} {key : Key kind} {value : β} :
    (key, value) ∈ s.toList ↔ s.get? key = some value := by
  obtain ⟨slot, version⟩ := key
  rw [toList, List.mem_filterMap, get?]
  constructor
  · rintro ⟨⟨cell, i⟩, hmem, hcell⟩
    obtain ⟨v, hv, heq⟩ := Option.map_eq_some_iff.mp hcell
    obtain ⟨⟨rfl, rfl⟩, rfl⟩ : (i = slot ∧ cell.version = version) ∧ v = value := by
      simpa using heq
    rw [List.mem_zipIdx_iff_getElem?, Array.getElem?_toList] at hmem
    simp [hmem, hv]
  · -- What is found has its own version, under which its slot is listed.
    intro h
    cases hcell : s.slots[slot]? with
    | none => simp [hcell] at h
    | some cell =>
      simp only [hcell] at h
      split at h
      · next hversion =>
        refine ⟨(cell, slot), ?_, ?_⟩
        · rw [List.mem_zipIdx_iff_getElem?, Array.getElem?_toList]
          exact hcell
        · simp only [h, beq_iff_eq.mp hversion, Option.map_some]
      · cases h

/-- The keys in use are those under which there is something. -/
theorem mem_keys_iff {s : Slots kind β} {key : Key kind} :
    key ∈ s.keys ↔ ∃ value, s.get? key = some value := by
  rw [keys, List.mem_map]
  constructor
  · rintro ⟨⟨k, value⟩, hmem, rfl⟩
    exact ⟨value, mem_toList_iff.mp hmem⟩
  · rintro ⟨value, hvalue⟩
    exact ⟨(key, value), mem_toList_iff.mpr hvalue, rfl⟩

/-- These are the keys that the store contains. -/
theorem mem_keys_iff_contains {s : Slots kind β} {key : Key kind} :
    key ∈ s.keys ↔ s.contains key = true := by
  rw [mem_keys_iff, contains, Option.isSome_iff_exists]

/-- The same as sets. -/
theorem setOf_contains (s : Slots kind β) :
    {key | s.contains key = true} = {key | key ∈ s.keys} := by
  ext key
  exact mem_keys_iff_contains.symm

/-- The slots of a list ascend. -/
theorem toList_pairwise (s : Slots kind β) :
    s.toList.Pairwise fun a b => a.1.slot < b.1.slot := by
  refine pairwise_slot_filterMap (fun hentry => ?_) s.slots.toList
  obtain ⟨_, -, rfl⟩ := Option.map_eq_some_iff.mp hentry
  rfl

/-- No slot is listed twice. -/
theorem nodup_slot_keys (s : Slots kind β) : (s.keys.map Key.slot).Nodup := by
  rw [keys, List.map_map, List.Nodup, List.pairwise_map]
  exact s.toList_pairwise.imp Nat.ne_of_lt

end Slots

/-! ### Maps from keys -/

namespace KeyMap

/-- Reading a map after an insertion: the new key drives out any other key of its slot. -/
theorem get?_insert (m : KeyMap kind β) (key other : Key kind) (value : β) :
    (m.insert key value).get? other =
      if key.slot = other.slot then if key.version = other.version then some value else none
      else m.get? other := by
  rw [get?, insert, Array.getElem?_setIfInBounds]
  by_cases h : key.slot = other.slot
  · have hlt : key.slot < (m.cells.rightpad (key.slot + 1) none).size := by
      rw [Array.size_rightpad]
      omega
    rw [if_pos h, if_pos h, if_pos hlt]
    simp
  · rw [if_neg h, if_neg h, get?]
    -- The padding holds nothing.
    have hpad : (m.cells.rightpad (key.slot + 1) none)[other.slot]?.join =
        m.cells[other.slot]?.join := by
      rw [Array.rightpad, Array.getElem?_append]
      split
      · rfl
      · next hge =>
        rw [Array.getElem?_eq_none (Nat.le_of_not_lt hge), Array.getElem?_replicate]
        split <;> rfl
    rw [hpad]

/-- What a map knows once some keys of different slots were put in. -/
theorem get?_foldl_insert {entries : List (Key kind × β)} (m : KeyMap kind β)
    (hnodup : (entries.map fun e => e.1.slot).Nodup) {key : Key kind} {value : β} :
    (entries.foldl (fun m e => m.insert e.1 e.2) m).get? key = some value ↔
      (key, value) ∈ entries ∨
        (∀ e ∈ entries, e.1.slot ≠ key.slot) ∧ m.get? key = some value := by
  -- The map that the keys are put into grows from key to key.
  induction entries generalizing m with
  | nil => simp
  | cons e entries ih =>
    obtain ⟨hfresh, hnodup⟩ := List.nodup_cons.mp hnodup
    rw [List.foldl_cons, ih _ hnodup, get?_insert, List.forall_mem_cons, List.mem_cons]
    by_cases hslot : e.1.slot = key.slot
    · have hnone : ∀ e' ∈ entries, e'.1.slot ≠ key.slot := by
        intro e' he' heq
        exact hfresh (List.mem_map.mpr ⟨e', he', heq.trans hslot.symm⟩)
      have hkey : e.1.version = key.version ↔ key = e.1 := by
        obtain ⟨⟨_, _⟩, _⟩ := e
        obtain ⟨_, _⟩ := key
        simp_all [eq_comm]
      rw [if_pos hslot]
      by_cases hversion : e.1.version = key.version
      · obtain ⟨k, v⟩ := e
        obtain rfl : key = k := hkey.mp hversion
        simp only [if_true, Option.some.injEq, Prod.mk.injEq, true_and, ne_eq, not_true_eq_false,
          false_and, or_false, eq_comm (a := v)]
        exact ⟨fun h => h.elim Or.inr fun h => Or.inl h.2,
          fun h => h.elim (fun h => Or.inr ⟨hnone, h⟩) Or.inl⟩
      · -- The slot now holds the new key, whatever was asked for before.
        have hne : (key, value) ≠ e := fun h => hversion (hkey.mpr (congrArg Prod.fst h))
        simp [hversion, hslot, hne]
    · have hne : (key, value) ≠ e := fun h => hslot (by rw [← h])
      simp [hslot, hne]

/-- **A map made from keys of different slots** knows exactly these keys. -/
theorem get?_ofList_eq_some_iff {entries : List (Key kind × β)}
    (hnodup : (entries.map fun e => e.1.slot).Nodup) {key : Key kind} {value : β} :
    (ofList entries).get? key = some value ↔ (key, value) ∈ entries := by
  have hempty : (({} : KeyMap kind β).get? key = some value) ↔ False := by
    simp [get?]
  exact (get?_foldl_insert {} hnodup).trans (by rw [hempty, and_false, or_false])

/-- A map lists what it looks up. -/
theorem mem_toList_iff {m : KeyMap kind β} {key : Key kind} {value : β} :
    (key, value) ∈ m.toList ↔ m.get? key = some value := by
  obtain ⟨slot, version⟩ := key
  rw [toList, List.mem_filterMap, get?]
  constructor
  · rintro ⟨⟨cell, i⟩, hmem, hcell⟩
    obtain ⟨⟨v, x⟩, rfl, heq⟩ := Option.map_eq_some_iff.mp hcell
    obtain ⟨⟨rfl, rfl⟩, rfl⟩ : (i = slot ∧ v = version) ∧ x = value := by simpa using heq
    rw [List.mem_zipIdx_iff_getElem?, Array.getElem?_toList] at hmem
    simp [hmem]
  · intro h
    cases hcell : m.cells[slot]?.join with
    | none => simp [hcell] at h
    | some entry =>
      obtain ⟨v, x⟩ := entry
      obtain ⟨rfl, rfl⟩ : v = version ∧ x = value := by simpa [hcell] using h
      refine ⟨(some (v, x), slot), ?_, rfl⟩
      rw [List.mem_zipIdx_iff_getElem?, Array.getElem?_toList]
      exact Option.join_eq_some_iff.mp hcell

/-- The slots of a list ascend. -/
theorem toList_pairwise (m : KeyMap kind β) :
    m.toList.Pairwise fun a b => a.1.slot < b.1.slot := by
  refine pairwise_slot_filterMap (fun hentry => ?_) m.cells.toList
  obtain ⟨_, -, rfl⟩ := Option.map_eq_some_iff.mp hentry
  rfl

end KeyMap

/-! ### Systems -/

namespace SystemIndex

variable {α : Type}

/-- **Number and place agree**: a system has a number exactly if it is listed there. -/
theorem position?_ofGalaxy_eq_some_iff {g : Galaxy α} {key : SystemKey} {i : Nat} :
    (ofGalaxy g).position? key = some i ↔ (ofGalaxy g).system? i = some key := by
  have hnodup : (g.systems.keys.zipIdx.map fun e => e.1.slot).Nodup := by
    have h := g.systems.nodup_slot_keys
    rwa [← List.zipIdx_map_fst 0 g.systems.keys, List.map_map] at h
  exact (KeyMap.get?_ofList_eq_some_iff hnodup).trans List.mem_zipIdx_iff_getElem?

/-- **What is numbered is what is there.** -/
theorem exists_system?_ofGalaxy_iff {g : Galaxy α} {key : SystemKey} :
    (∃ i, (ofGalaxy g).system? i = some key) ↔ ∃ system, g.system? key = some system := by
  show _ ↔ ∃ system, g.systems.get? key = some system
  rw [← Slots.mem_keys_iff, List.mem_iff_getElem?]
  rfl

/-- Different numbers stand for different systems. -/
theorem system?_inj {g : Galaxy α} {key : SystemKey} {i j : Nat}
    (hi : (ofGalaxy g).system? i = some key) (hj : (ofGalaxy g).system? j = some key) : i = j := by
  rw [← position?_ofGalaxy_eq_some_iff] at hi hj
  exact Option.some.inj (hi.symm.trans hj)

/-- No system is numbered twice. -/
theorem nodup_keys_ofGalaxy (g : Galaxy α) : (ofGalaxy g).keys.Nodup :=
  List.Nodup.of_map Key.slot g.systems.nodup_slot_keys

/-- Numbers lie below the size. -/
theorem lt_size_of_system? {index : SystemIndex} {key : SystemKey} {i : Nat}
    (h : index.system? i = some key) : i < index.size :=
  (List.getElem?_eq_some_iff.mp h).1

/-- Each number below the size stands for a system. -/
theorem exists_system?_of_lt {index : SystemIndex} {i : Nat} (hi : i < index.size) :
    ∃ key, index.system? i = some key :=
  ⟨_, List.getElem?_eq_getElem hi⟩

/-- **The numbered systems are those of the galaxy.** -/
theorem mem_keys_ofGalaxy_iff {g : Galaxy α} {key : SystemKey} :
    key ∈ (ofGalaxy g).keys ↔ ∃ system, g.system? key = some system :=
  Slots.mem_keys_iff

end SystemIndex

end GalaxyMarket
