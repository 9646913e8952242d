import GalaxyMarket.Slots

/-!
# What a store answers after an edit

A store is read through `Slots.get?` alone. The lemmas below say what it answers after each edit in
terms of what it answered before: the edited key gets a new answer, every other key keeps its own.
That also holds of the other keys of the edited slot. They are dead, and stay so, because a slot
that is waiting to be used again holds nothing (`Slots.IsSound`); every edit keeps it that way.
-/

namespace GalaxyMarket

variable {kind : Kind} {β : Type}

theorem Key.eq_iff {a b : Key kind} : a = b ↔ a.slot = b.slot ∧ a.version = b.version := by
  cases a
  cases b
  simp

namespace Slots

/-- The slots that wait to be used again hold nothing, and none of them waits twice. -/
structure IsSound (s : Slots kind β) : Prop where
  nodup : s.free.Nodup
  vacant : ∀ i ∈ s.free, ∃ version, s.slots[i]? = some ⟨version, none⟩

variable {s : Slots kind β} {key other : Key kind} {value : β}

/-- A look-up finds what its slot holds, if the slot is at the version of the key. -/
theorem get?_eq_some_iff :
    s.get? key = some value ↔ s.slots[key.slot]? = some ⟨key.version, some value⟩ := by
  unfold get?
  cases h : s.slots[key.slot]? with
  | none => simp
  | some slot =>
    obtain ⟨version, value?⟩ := slot
    by_cases hversion : version = key.version
    · simp [hversion]
    · simp [hversion]

/-- A key is in use if something is found under it. -/
theorem contains_iff : s.contains key = true ↔ ∃ value, s.get? key = some value := by
  rw [contains, Option.isSome_iff_exists]

theorem isSound_empty : ({} : Slots kind β).IsSound := ⟨List.nodup_nil, fun _ h => nomatch h⟩

/-- A slot that holds something does not wait. -/
theorem IsSound.slot_notMem (hs : s.IsSound) (h : s.get? key = some value) :
    key.slot ∉ s.free := by
  intro hmem
  obtain ⟨version, hvacant⟩ := hs.vacant _ hmem
  rw [get?_eq_some_iff, hvacant] at h
  simp at h

/-- One slot never holds something for two keys. -/
theorem get?_of_slot_eq (h : s.get? key = some value) (hslot : other.slot = key.slot) :
    s.get? other = if other = key then some value else none := by
  unfold get?
  rw [hslot, get?_eq_some_iff.mp h]
  by_cases hversion : key.version = other.version
  · simp [Key.eq_iff, hslot, hversion]
  · simp [Key.eq_iff, hslot, hversion, Ne.symm hversion]

/-! ### Putting in -/

/-- Where no slot waits, a value opens one; -/
theorem insert_of_no_vacancy (slots : Array (Slot β)) (value : β) :
    insert ⟨slots, []⟩ value =
      ((⟨slots.size, 1⟩ : Key kind), { slots := slots.push ⟨1, some value⟩ }) := rfl

/-- otherwise it goes to the first that waits, under the next version. -/
theorem insert_of_vacancy {slots : Array (Slot β)} {i version : Nat} {free : List Nat}
    (h : slots[i]? = some ⟨version, none⟩) (value : β) :
    insert ⟨slots, i :: free⟩ value =
      ((⟨i, version + 1⟩ : Key kind),
        { slots := slots.setIfInBounds i ⟨version + 1, some value⟩, free }) := by
  rw [insert, h]
  rfl

/-- The new value is found under its key, which was not in use before. -/
theorem IsSound.get?_insert (hs : s.IsSound) (value : β) (key : Key kind) :
    s.get? (s.insert value).1 = none ∧
      (s.insert value).2.get? key =
        if key = (s.insert value).1 then some value else s.get? key := by
  obtain ⟨slots, free⟩ := s
  -- Both ways the value goes into one slot, and all other slots are as before.
  cases free with
  | nil =>
    -- No slot waits, so that a new one is put at the end.
    rw [insert_of_no_vacancy]
    refine ⟨by simp [get?], ?_⟩
    by_cases hslot : key.slot = slots.size
    · by_cases hversion : key.version = 1
      · simp [get?, Key.eq_iff, hslot, hversion]
      · simp [get?, Key.eq_iff, hslot, hversion, Ne.symm hversion]
    · have hpush : (slots.push ⟨1, some value⟩)[key.slot]? = slots[key.slot]? := by
        rw [Array.getElem?_push, if_neg hslot]
      simp [get?, Key.eq_iff, hslot, hpush]
  | cons i free =>
    obtain ⟨version, hvacant⟩ := hs.vacant i List.mem_cons_self
    change slots[i]? = some ⟨version, none⟩ at hvacant
    have hlt : i < slots.size := (Array.getElem?_eq_some_iff.mp hvacant).1
    rw [insert_of_vacancy hvacant]
    refine ⟨by simp [get?, hvacant], ?_⟩
    by_cases hslot : key.slot = i
    · -- The slot held nothing, under whatever version.
      have hbefore : Slots.get? ⟨slots, i :: free⟩ key = none := by
        rw [get?, hslot, hvacant]
        exact ite_self none
      rw [hbefore]
      by_cases hversion : key.version = version + 1
      · simp [get?, Key.eq_iff, hslot, hversion, hlt]
      · simp [get?, Key.eq_iff, hslot, hversion, hlt, Ne.symm hversion]
    · simp [get?, Key.eq_iff, hslot, Ne.symm hslot, Array.getElem?_setIfInBounds_ne]

/-- Putting in keeps a store sound, -/
theorem IsSound.insert (hs : s.IsSound) (value : β) : (s.insert value).2.IsSound := by
  obtain ⟨slots, free⟩ := s
  cases free with
  | nil => exact ⟨List.nodup_nil, fun _ h => nomatch h⟩
  | cons i free =>
    obtain ⟨hhead, hnodup⟩ := List.nodup_cons.mp hs.nodup
    refine ⟨hnodup, fun j hj => ?_⟩
    -- The slot that was used is not among those that still wait.
    have hne : i ≠ j := fun h => hhead (h ▸ hj)
    obtain ⟨version, hvacant⟩ := hs.vacant j (List.mem_cons_of_mem _ hj)
    exact ⟨version, (Array.getElem?_setIfInBounds_ne hne).trans hvacant⟩

/-! ### Taking out -/

/-- A key that is not in use is not taken out, -/
theorem erase_of_not_contains (h : s.get? key = none) : s.erase key = s := by
  rw [erase, contains, h]
  rfl

/-- and that of a value leaves its slot empty, at the next version. -/
theorem erase_of_contains (h : s.get? key = some value) : s.erase key =
    { slots := s.slots.setIfInBounds key.slot ⟨key.version + 1, none⟩
      free := key.slot :: s.free } := by
  rw [erase, contains, h]
  rfl

/-- What is taken out is not found any more. Everything else is. -/
theorem get?_erase (s : Slots kind β) (key other : Key kind) :
    (s.erase key).get? other = if other = key then none else s.get? other := by
  cases h : s.get? key with
  | none =>
    rw [erase_of_not_contains h]
    split
    · next heq => rw [heq, h]
    · rfl
  | some value =>
    rw [erase_of_contains h]
    have hslots := get?_eq_some_iff.mp h
    have hlt : key.slot < s.slots.size := (Array.getElem?_eq_some_iff.mp hslots).1
    by_cases hslot : other.slot = key.slot
    · -- No key of the slot is in use afterwards, and before only this one was.
      have hbefore : s.get? other = if other = key then some value else none :=
        get?_of_slot_eq h hslot
      rw [hbefore]
      simp [get?, hslot, hlt]
    · simp [get?, Key.eq_iff, hslot, Array.getElem?_setIfInBounds_ne (Ne.symm hslot)]

/-- taking out does, -/
theorem IsSound.erase (hs : s.IsSound) (key : Key kind) : (s.erase key).IsSound := by
  cases h : s.get? key with
  | none =>
    rw [erase_of_not_contains h]
    exact hs
  | some value =>
    rw [erase_of_contains h]
    have hslots := get?_eq_some_iff.mp h
    have hlt : key.slot < s.slots.size := (Array.getElem?_eq_some_iff.mp hslots).1
    have hnew := hs.slot_notMem h
    refine ⟨List.nodup_cons.mpr ⟨hnew, hs.nodup⟩, fun i hi => ?_⟩
    -- The slot that is emptied now waits as well, with the next version.
    rcases List.mem_cons.mp hi with rfl | hi
    · exact ⟨key.version + 1, by simp [hlt]⟩
    · have hne : key.slot ≠ i := fun heq => hnew (heq ▸ hi)
      obtain ⟨version, hvacant⟩ := hs.vacant i hi
      exact ⟨version, (Array.getElem?_setIfInBounds_ne hne).trans hvacant⟩

theorem get?_foldl_erase (keys : List (Key kind)) (s : Slots kind β) (other : Key kind) :
    (keys.foldl Slots.erase s).get? other = if other ∈ keys then none else s.get? other := by
  -- A key is gone as soon as it was met, and taking others out does not bring it back.
  induction keys generalizing s with
  | nil => simp
  | cons key keys ih =>
    rw [List.foldl_cons, ih, get?_erase]
    by_cases hkeys : other ∈ keys
    · simp [hkeys]
    · by_cases hkey : other = key
      · simp [hkey]
      · simp [hkeys, hkey]

theorem IsSound.foldl_erase (keys : List (Key kind)) (hs : s.IsSound) :
    (keys.foldl Slots.erase s).IsSound := by
  induction keys generalizing s with
  | nil => exact hs
  | cons key keys ih => exact ih (hs.erase key)

/-! ### Changing in place -/

/-- A change keeps the slot, the version and the slots that wait. -/
theorem modify_of_get? (f : β → β) (h : s.get? key = some value) : s.modify key f =
    { slots := s.slots.setIfInBounds key.slot ⟨key.version, some (f value)⟩, free := s.free } := by
  rw [modify, h]

theorem modify_of_get?_eq_none (f : β → β) (h : s.get? key = none) : s.modify key f = s := by
  rw [modify, h]

/-- One value is changed, and no other. -/
theorem get?_modify (s : Slots kind β) (key : Key kind) (f : β → β) (other : Key kind) :
    (s.modify key f).get? other =
      if other = key then (s.get? other).map f else s.get? other := by
  cases h : s.get? key with
  | none =>
    rw [modify_of_get?_eq_none f h]
    split
    · next heq => rw [heq, h, Option.map_none]
    · rfl
  | some value =>
    rw [modify_of_get? f h]
    have hslots := get?_eq_some_iff.mp h
    have hlt : key.slot < s.slots.size := (Array.getElem?_eq_some_iff.mp hslots).1
    by_cases hslot : other.slot = key.slot
    · -- The version stays, so that the same one key of the slot is in use as before.
      have hbefore : s.get? other = if other = key then some value else none :=
        get?_of_slot_eq h hslot
      rw [hbefore]
      by_cases hversion : key.version = other.version
      · simp [get?, Key.eq_iff, hslot, hversion, hlt]
      · simp [get?, Key.eq_iff, hslot, hversion, hlt, Ne.symm hversion]
    · simp [get?, Key.eq_iff, hslot, Array.getElem?_setIfInBounds_ne (Ne.symm hslot)]

/-- The same keys are in use. -/
@[simp] theorem contains_modify (s : Slots kind β) (key : Key kind) (f : β → β) (other : Key kind) :
    (s.modify key f).contains other = s.contains other := by
  unfold contains
  rw [get?_modify]
  split
  · rw [Option.isSome_map]
  · rfl

/-- and so does changing in place. -/
theorem IsSound.modify (hs : s.IsSound) (key : Key kind) (f : β → β) :
    (s.modify key f).IsSound := by
  cases h : s.get? key with
  | none =>
    rw [modify_of_get?_eq_none f h]
    exact hs
  | some value =>
    rw [modify_of_get? f h]
    refine ⟨hs.nodup, fun i hi => ?_⟩
    -- The slot that is written to is in use, so that it is none of those that wait.
    have hne : key.slot ≠ i := fun heq => hs.slot_notMem h (heq ▸ hi)
    obtain ⟨version, hvacant⟩ := hs.vacant i hi
    exact ⟨version, (Array.getElem?_setIfInBounds_ne hne).trans hvacant⟩

/-- Of a change only what it makes of the value matters. -/
theorem modify_congr {f f' : β → β} (h : ∀ value, s.get? key = some value → f value = f' value) :
    s.modify key f = s.modify key f' := by
  cases hvalue : s.get? key with
  | none => rw [modify_of_get?_eq_none f hvalue, modify_of_get?_eq_none f' hvalue]
  | some value => rw [modify_of_get? f hvalue, modify_of_get? f' hvalue, h value hvalue]

/-- Two changes of one value are one change. -/
theorem modify_modify (s : Slots kind β) (key : Key kind) (f f' : β → β) :
    (s.modify key f).modify key f' = s.modify key (f' ∘ f) := by
  cases h : s.get? key with
  | none =>
    rw [modify_of_get?_eq_none f h, modify_of_get?_eq_none f' h, modify_of_get?_eq_none _ h]
  | some value =>
    have hafter : (s.modify key f).get? key = some (f value) := by
      rw [get?_modify, if_pos rfl, h, Option.map_some]
    rw [modify_of_get? f' hafter, modify_of_get? f h, modify_of_get? _ h]
    simp

/-- Changes of two values can be made in any order. -/
theorem modify_comm (s : Slots kind β) (hne : key ≠ other) (f f' : β → β) :
    (s.modify key f).modify other f' = (s.modify other f').modify key f := by
  have hkey : (s.modify other f').get? key = s.get? key := by rw [get?_modify, if_neg hne]
  have hother : (s.modify key f).get? other = s.get? other := by
    rw [get?_modify, if_neg (Ne.symm hne)]
  cases h : s.get? key with
  | none =>
    rw [modify_of_get?_eq_none f h, modify_of_get?_eq_none f (hkey.trans h)]
  | some value =>
    cases h' : s.get? other with
    | none =>
      rw [modify_of_get?_eq_none f' h', modify_of_get?_eq_none f' (hother.trans h')]
    | some value' =>
      -- Both keys are in use, so that they do not share a slot.
      have hslot : key.slot ≠ other.slot := by
        intro hslot
        rw [get?_of_slot_eq h' hslot, if_neg hne] at h
        cases h
      rw [modify_of_get? f' (hother.trans h'), modify_of_get? f (hkey.trans h),
        modify_of_get? f h, modify_of_get? f' h', Array.setIfInBounds_comm _ _ hslot]

/-- All values are changed alike. -/
theorem get?_map (s : Slots kind β) (f : β → β) (key : Key kind) :
    (s.map f).get? key = (s.get? key).map f := by
  cases h : s.slots[key.slot]? with
  | none => simp [map, get?, h]
  | some slot =>
    by_cases hversion : slot.version = key.version
    · simp [map, get?, h, hversion]
    · simp [map, get?, h, hversion]

theorem IsSound.map (hs : s.IsSound) (f : β → β) : (s.map f).IsSound := by
  refine ⟨hs.nodup, fun i hi => ?_⟩
  obtain ⟨version, hvacant⟩ := hs.vacant i hi
  exact ⟨version, by simp [Slots.map, hvacant]⟩

end Slots

end GalaxyMarket
