import GalaxyMarket.Proofs.Galaxy.Slots
import GalaxyMarket.Proofs.Market.Numbering

/-!
# What a store lists after an edit

A store lists its values by ascending slot, and exactly those that it would look up. These two facts
settle what it lists (`Slots.toList_eq_of_forall`), so that the lists after an edit can be read off
the look-ups after it: a value that is changed stays where it is (`Slots.toList_modify`), and a
store from which nothing was ever taken puts new values at the end (`Slots.IsDense.toList_insert`).
Of two stores, the keys that both have stand in the same order in both (`Slots.filter_keys`).
-/

namespace GalaxyMarket.Slots

variable {kind : Kind} {β : Type} {s : Slots kind β}

/-- Two ascending lists of the same members are one. -/
theorem eq_of_ascending {γ : Type} {rank : γ → Nat} {l l' : List γ}
    (hl : l.Pairwise fun a b => rank a < rank b) (hl' : l'.Pairwise fun a b => rank a < rank b)
    (hmem : ∀ a, a ∈ l ↔ a ∈ l') : l = l' := by
  have : Std.Irrefl fun a b : γ => rank a < rank b := ⟨fun _ => Nat.lt_irrefl _⟩
  have : Std.Antisymm fun a b : γ => rank a < rank b :=
    ⟨fun _ _ hab hba => absurd hab (Nat.lt_asymm hba)⟩
  exact hl.eq_of_mem_iff hl' hmem

/-- **A list by ascending slot is that of a store** if it holds what the store looks up. -/
theorem toList_eq_of_forall {l : List (Key kind × β)}
    (hsorted : l.Pairwise fun a b => a.1.slot < b.1.slot)
    (hmem : ∀ key value, (key, value) ∈ l ↔ s.get? key = some value) : s.toList = l :=
  eq_of_ascending s.toList_pairwise hsorted fun entry =>
    mem_toList_iff.trans (hmem entry.1 entry.2).symm

/-- **Two stores list the keys that both have in the same order.** -/
theorem filter_keys {γ : Type} (s : Slots kind β) (t : Slots kind γ) :
    s.keys.filter t.contains = t.keys.filter s.contains := by
  have hkeys : ∀ {δ : Type} (r : Slots kind δ), r.keys.Pairwise fun a b => a.slot < b.slot :=
    fun r => List.pairwise_map.mpr r.toList_pairwise
  -- Both sides ascend and hold the keys that are in use in both stores.
  apply eq_of_ascending ((hkeys s).filter _) ((hkeys t).filter _)
  intro key
  rw [List.mem_filter, List.mem_filter, mem_keys_iff, mem_keys_iff, contains_iff, contains_iff]
  exact and_comm

/-! ### Changing in place -/

/-- A value that is changed keeps its place in the list. -/
theorem toList_modify (s : Slots kind β) (key : Key kind) (f : β → β) :
    (s.modify key f).toList =
      s.toList.map fun entry => (entry.1, if entry.1 = key then f entry.2 else entry.2) := by
  apply toList_eq_of_forall
  · exact List.pairwise_map.mpr s.toList_pairwise
  · intro other value
    -- The keys did not change, so that the list still ascends; what is under them is a matter of
    -- look-ups.
    rw [get?_modify, List.mem_map]
    constructor
    · rintro ⟨⟨key', old⟩, hmem, heq⟩
      obtain ⟨rfl, rfl⟩ := Prod.mk.inj heq
      have hold : s.get? key' = some old := mem_toList_iff.mp hmem
      rw [hold]
      split <;> rfl
    · intro hvalue
      split at hvalue
      · next heq =>
        obtain ⟨old, hold, rfl⟩ := Option.map_eq_some_iff.mp hvalue
        exact ⟨(other, old), mem_toList_iff.mpr hold, by rw [if_pos heq]⟩
      · next hne => exact ⟨(other, value), mem_toList_iff.mpr hvalue, by rw [if_neg hne]⟩

/-- The keys that are in use and their order are those from before. -/
theorem keys_modify (s : Slots kind β) (key : Key kind) (f : β → β) :
    (s.modify key f).keys = s.keys := by
  unfold keys
  rw [toList_modify, List.map_map]
  rfl

/-- A value that stands somewhere in the list is changed there, and all others stay. -/
theorem toList_modify_of_append {key : Key kind} {value : β} {front back : List (Key kind × β)}
    (hs : s.toList = front ++ (key, value) :: back) (f : β → β) :
    (s.modify key f).toList = front ++ (key, f value) :: back := by
  -- No other entry of the list has the same slot.
  have hslots := s.toList_pairwise
  rw [hs, List.pairwise_append, List.pairwise_cons] at hslots
  obtain ⟨-, ⟨hback, -⟩, hfront⟩ := hslots
  have hkept : ∀ l : List (Key kind × β), (∀ entry ∈ l, entry.1.slot ≠ key.slot) →
      (l.map fun entry => (entry.1, if entry.1 = key then f entry.2 else entry.2)) = l := by
    intro l hl
    refine (List.map_congr_left fun entry hentry => ?_).trans (List.map_id' l)
    rw [if_neg fun heq => hl entry hentry (congrArg Key.slot heq)]
  rw [toList_modify, hs, List.map_append, List.map_cons, if_pos rfl,
    hkept front fun entry hentry => Nat.ne_of_lt (hfront entry hentry _ List.mem_cons_self),
    hkept back fun entry hentry => Nat.ne_of_gt (hback entry hentry)]

/-! ### Putting in -/

/-- A store from which nothing was taken, so that no slot waits to be used again. -/
def IsDense (s : Slots kind β) : Prop := s.free = []

/-- With nothing waiting there is nothing to be kept sound. -/
theorem IsDense.isSound (hs : s.IsDense) : s.IsSound where
  nodup := by
    rw [hs]
    exact List.nodup_nil
  vacant i hi := by
    rw [hs] at hi
    cases hi

/-- Changes -/
theorem IsDense.modify (hs : s.IsDense) (key : Key kind) (f : β → β) :
    (s.modify key f).IsDense := by
  unfold Slots.modify
  cases s.get? key with
  | none => exact hs
  | some value => exact hs

/-- and new values leave no slot waiting. -/
theorem IsDense.insert (hs : s.IsDense) (value : β) : (s.insert value).2.IsDense := by
  obtain ⟨slots, free⟩ := s
  obtain rfl : free = [] := hs
  rfl

/-- **A dense store puts new values at the end.** -/
theorem IsDense.toList_insert (hs : s.IsDense) (value : β) :
    (s.insert value).2.toList = s.toList ++ [((s.insert value).1, value)] := by
  have hlookup : ∀ key, _ := fun key => (hs.isSound.get?_insert value key).2
  have hfresh : s.get? (s.insert value).1 = none := (hs.isSound.get?_insert value default).1
  apply toList_eq_of_forall
  · -- The new slot lies behind all slots that there were.
    rw [List.pairwise_append]
    refine ⟨s.toList_pairwise, List.pairwise_singleton _ _, ?_⟩
    intro entry hentry new hnew
    rw [List.mem_singleton.mp hnew]
    obtain ⟨hlt, -⟩ :=
      Array.getElem?_eq_some_iff.mp (get?_eq_some_iff.mp (mem_toList_iff.mp hentry))
    obtain ⟨slots, free⟩ := s
    obtain rfl : free = [] := hs
    exact hlt
  · intro key found
    rw [hlookup, List.mem_append, List.mem_singleton, mem_toList_iff]
    by_cases hkey : key = (s.insert value).1
    · rw [if_pos hkey, hkey, hfresh]
      simp [eq_comm]
    · rw [if_neg hkey]
      simp [hkey]

/-- Its key is the last one. -/
theorem IsDense.keys_insert (hs : s.IsDense) (value : β) :
    (s.insert value).2.keys = s.keys ++ [(s.insert value).1] := by
  unfold keys
  rw [hs.toList_insert, List.map_append, List.map_singleton]

/-- What was there before is still found. -/
theorem IsDense.get?_insert_of_get? (hs : s.IsDense) (new : β) {key : Key kind} {value : β}
    (hkey : s.get? key = some value) : (s.insert new).2.get? key = some value := by
  apply mem_toList_iff.mp
  rw [hs.toList_insert]
  exact List.mem_append_left _ (mem_toList_iff.mpr hkey)

/-- The new value is found under its key. -/
theorem IsDense.get?_insert_self (hs : s.IsDense) (new : β) :
    (s.insert new).2.get? (s.insert new).1 = some new := by
  apply mem_toList_iff.mp
  rw [hs.toList_insert]
  exact List.mem_append_right _ List.mem_cons_self

end GalaxyMarket.Slots
