import GalaxyMarket.Market.Ledger
import GalaxyMarket.Proofs.Galaxy.Listing

/-!
# The pass that synchronises a ledger

A synchronisation works on the rows that are there. It takes out those of planets that are gone, and
then goes through the planets of the galaxy and puts in a row for each that has none. Here is shown
what is found afterwards (`Ledger.row?_sync`): for each planet of the galaxy its old row, or else a
fresh one, and for nothing else anything. The report counts the rows that came and those that went
(`Ledger.added_reconcile`, `Ledger.removed_reconcile`).

A slot that is used again holds the row of its old planet until the rows are taken out, and a row
that is put in drives out what its slot holds. That no row is lost in this way is because of the
order of the two halves: once the old rows are out, each row is that of a planet of the galaxy
(`Ledger.Confined`), and no two of these share a slot. So the slot of a planet without a row is
empty when its turn comes (`Ledger.Confined.row?_eq_none`). What one turn preserves is
`Ledger.Enrolled`, which says of all planets gone through so far that they have a row now, and of
all others that nothing has changed.
-/

namespace GalaxyMarket

/-! ### Taking keys out of a map -/

namespace KeyMap

variable {kind : Kind} {β : Type} {m : KeyMap kind β} {keep : Key kind → Bool}

/-- A key is in the map if something is found under it. -/
theorem contains_iff {key : Key kind} :
    m.contains key = true ↔ ∃ value, m.get? key = some value := by
  rw [contains, Option.isSome_iff_exists]

/-- A cell is emptied if its key fails the test. -/
theorem join_cells_retain (m : KeyMap kind β) (keep : Key kind → Bool) (slot : Nat) :
    (m.retain keep).cells[slot]?.join =
      m.cells[slot]?.join.filter fun entry => keep ⟨slot, entry.1⟩ := by
  unfold retain
  rw [Array.getElem?_mapIdx]
  cases m.cells[slot]? <;> rfl

/-- Reading a map from which keys were taken out. -/
theorem get?_retain (m : KeyMap kind β) (keep : Key kind → Bool) (key : Key kind) :
    (m.retain keep).get? key = if keep key then m.get? key else none := by
  obtain ⟨slot, version⟩ := key
  rw [get?, get?, join_cells_retain]
  cases m.cells[slot]?.join with
  | none => exact (ite_self none).symm
  | some entry =>
    -- The test is made of the key that is there, which is the one looked for if anything is found.
    obtain ⟨v, value⟩ := entry
    rw [Option.filter_some]
    by_cases hversion : v = version
    · subst hversion
      cases keep ⟨slot, v⟩ <;> simp
    · cases keep ⟨slot, v⟩ <;> simp [hversion]

/-- What is listed is what passes the test, in the same order. -/
theorem toList_retain (m : KeyMap kind β) (keep : Key kind → Bool) :
    (m.retain keep).toList = m.toList.filter fun entry => keep entry.1 := by
  apply Slots.eq_of_ascending (m.retain keep).toList_pairwise (m.toList_pairwise.filter _)
  rintro ⟨key, value⟩
  rw [mem_toList_iff, List.mem_filter, mem_toList_iff, get?_retain]
  by_cases hkeep : keep key = true
  · simp [hkeep]
  · simp [hkeep]

/-- **The sizes before and after** differ by the number of keys that were taken out. -/
theorem size_sub_size_retain (m : KeyMap kind β) (keep : Key kind → Bool) :
    m.size - (m.retain keep).size = (m.toList.filter fun entry => !keep entry.1).length := by
  have hsplit := List.length_eq_length_filter_add (l := m.toList) fun entry => keep entry.1
  rw [size, size, toList_retain]
  omega

/-- If every key passes, the map stays as it is. -/
theorem retain_eq_self (hkeep : ∀ key, m.contains key = true → keep key = true) :
    m.retain keep = m := by
  obtain ⟨cells⟩ := m
  refine congrArg KeyMap.mk (Array.ext_getElem? fun slot => ?_)
  rw [Array.getElem?_mapIdx]
  cases hcell : cells[slot]? with
  | none => rfl
  | some cell =>
    cases cell with
    | none => rfl
    | some entry =>
      obtain ⟨version, value⟩ := entry
      have hkey : keep ⟨slot, version⟩ = true :=
        hkeep ⟨slot, version⟩ (contains_iff.mpr ⟨value, by simp [get?, hcell]⟩)
      simp [hkey]

end KeyMap

namespace Ledger

variable {α : Type}

/-- The planets that have a row, by ascending slot. -/
def planets (ledger : Ledger α) : List PlanetKey := ledger.rows.toList.map Prod.fst

/-- The planets listed are those with a row. -/
theorem mem_planets_iff {ledger : Ledger α} {q : PlanetKey} :
    q ∈ ledger.planets ↔ ledger.contains q = true := by
  rw [planets, contains, Option.isSome_iff_exists, List.mem_map]
  constructor
  · rintro ⟨⟨q, row⟩, hmem, rfl⟩
    exact ⟨row, KeyMap.mem_toList_iff.mp hmem⟩
  · rintro ⟨row, hrow⟩
    exact ⟨(q, row), KeyMap.mem_toList_iff.mpr hrow, rfl⟩

variable [Scalar α] {ledger : Ledger α} {g : Galaxy α} {planet q : PlanetKey}
  {keys : List PlanetKey} {state : Ledger α × Nat}

/-! ### Taking rows out -/

/-- A ledger in which every row is that of a planet of the galaxy. -/
def Confined (ledger : Ledger α) (g : Galaxy α) : Prop :=
  ∀ q, ledger.contains q = true → g.planets.contains q = true

omit [Scalar α] in
/-- Rows of planets that are gone are taken out, and all others stay. -/
theorem row?_retain (ledger : Ledger α) (g : Galaxy α) (q : PlanetKey) :
    (ledger.retain g).row? q = if g.planets.contains q then ledger.row? q else none :=
  KeyMap.get?_retain ..

omit [Scalar α] in
/-- Then every row is that of a planet of the galaxy. -/
theorem confined_retain (ledger : Ledger α) (g : Galaxy α) : (ledger.retain g).Confined g := by
  intro q hq
  rw [contains, row?_retain] at hq
  by_contra habsent
  rw [if_neg habsent] at hq
  cases hq

omit [Scalar α] in
/-- **The slot of a planet without a row is empty**, so that its row drives out no other. -/
theorem Confined.row?_eq_none (h : ledger.Confined g) (hplanet : g.planets.contains planet = true)
    (habsent : ledger.contains planet = false) (hslot : q.slot = planet.slot) :
    ledger.row? q = none := by
  rw [← Option.isNone_iff_eq_none, ← Option.isSome_eq_false_iff]
  by_contra hrow
  -- A row there would be that of another planet of the galaxy, with the same slot.
  obtain ⟨value, hvalue⟩ := Slots.contains_iff.mp (h q (Bool.eq_true_of_not_eq_false hrow))
  obtain ⟨value', hvalue'⟩ := Slots.contains_iff.mp hplanet
  rw [Slots.get?_of_slot_eq hvalue' hslot] at hvalue
  split at hvalue
  · next heq => exact hrow (heq ▸ habsent)
  · cases hvalue

/-! ### Putting rows in -/

/-- A planet that has a row is passed over. -/
theorem enroll_of_contains (h : ledger.contains planet = true) (added : Nat) :
    enroll (ledger, added) planet = (ledger, added) :=
  if_pos h

/-- One that has none is given a fresh row, and counted. -/
theorem enroll_of_not_contains (h : ledger.contains planet = false) (added : Nat) :
    enroll (ledger, added) planet =
      ({ ledger with rows := ledger.rows.insert planet ledger.freshRow }, added + 1) :=
  if_neg (ne_true_of_eq_false h)

/-- Base prices are not touched. -/
theorem basePrices_enroll (ledger : Ledger α) (added : Nat) (planet : PlanetKey) :
    (enroll (ledger, added) planet).1.basePrices = ledger.basePrices := by
  cases hcontains : ledger.contains planet with
  | true => rw [enroll_of_contains hcontains]
  | false => rw [enroll_of_not_contains hcontains]

/-- The count goes up for a planet without a row. -/
theorem snd_enroll (ledger : Ledger α) (added : Nat) (planet : PlanetKey) :
    (enroll (ledger, added) planet).2 = added + if ledger.contains planet then 0 else 1 := by
  cases hcontains : ledger.contains planet with
  | true => rw [enroll_of_contains hcontains, if_pos rfl, Nat.add_zero]
  | false => rw [enroll_of_not_contains hcontains, if_neg Bool.false_ne_true]

/-- A planet of the galaxy has a row when its turn is over, and no other row is touched. -/
theorem Confined.row?_enroll (h : ledger.Confined g) (hplanet : g.planets.contains planet = true)
    (added : Nat) (q : PlanetKey) : (enroll (ledger, added) planet).1.row? q =
      if q = planet then some ((ledger.row? q).getD ledger.freshRow) else ledger.row? q := by
  cases hcontains : ledger.contains planet with
  | true =>
    rw [enroll_of_contains hcontains]
    split
    · next heq =>
      obtain ⟨row, hrow⟩ := Option.isSome_iff_exists.mp hcontains
      rw [heq, hrow, Option.getD_some]
    · rfl
  | false =>
    rw [enroll_of_not_contains hcontains]
    show (ledger.rows.insert planet ledger.freshRow).get? q = _
    rw [KeyMap.get?_insert]
    by_cases hslot : planet.slot = q.slot
    · have hnone : ledger.row? q = none := h.row?_eq_none hplanet hcontains hslot.symm
      simp [hnone, hslot, Key.eq_iff, eq_comm]
    · have hne : q ≠ planet := fun heq => hslot (congrArg Key.slot heq.symm)
      rw [if_neg hslot, if_neg hne]
      rfl

/-- The new row is that of a planet of the galaxy too. -/
theorem Confined.enroll (h : ledger.Confined g) (hplanet : g.planets.contains planet = true)
    (added : Nat) : (enroll (ledger, added) planet).1.Confined g := by
  intro q hq
  rw [contains, h.row?_enroll hplanet] at hq
  split at hq
  · next heq => rwa [heq]
  · exact h q hq

/-- What has become of the ledger `before` when some planets of a galaxy were gone through. -/
structure Enrolled (before : Ledger α) (g : Galaxy α) (keys : List PlanetKey)
    (state : Ledger α × Nat) : Prop where
  confined : state.1.Confined g
  basePrices : state.1.basePrices = before.basePrices
  /-- These planets have a row, and all others what they had. -/
  row?_eq : ∀ q, state.1.row? q =
    if q ∈ keys then some ((before.row? q).getD before.freshRow) else before.row? q
  /-- Those that had none are counted. -/
  added : state.2 = (keys.filter fun q => !before.contains q).length

/-- Before the first planet nothing has changed. -/
theorem Confined.enrolled_nil (h : ledger.Confined g) : ledger.Enrolled g [] (ledger, 0) where
  confined := h
  basePrices := rfl
  row?_eq _ := (if_neg List.not_mem_nil).symm
  added := rfl

/-- **One planet more.** -/
theorem Enrolled.enroll (h : ledger.Enrolled g keys state)
    (hplanet : g.planets.contains planet = true) (hnew : planet ∉ keys) :
    ledger.Enrolled g (keys ++ [planet]) (enroll state planet) := by
  obtain ⟨now, added⟩ := state
  have hfresh : now.freshRow = ledger.freshRow := by rw [freshRow, h.basePrices, freshRow]
  have hrow : now.row? planet = ledger.row? planet := (h.row?_eq planet).trans (if_neg hnew)
  constructor
  case confined => exact h.confined.enroll hplanet added
  case basePrices => exact (basePrices_enroll now added planet).trans h.basePrices
  case row?_eq =>
    intro q
    rw [h.confined.row?_enroll hplanet]
    by_cases hq : q = planet
    · rw [if_pos hq, if_pos (by simp [hq]), hq, hrow, hfresh]
    · rw [if_neg hq, h.row?_eq q]
      simp [hq]
  case added =>
    have hcontains : now.contains planet = ledger.contains planet := congrArg Option.isSome hrow
    have hcount : added = (keys.filter fun q => !ledger.contains q).length := h.added
    rw [snd_enroll, hcontains, hcount, List.filter_append, List.length_append]
    cases hplanet : ledger.contains planet <;> simp [hplanet]

/-- **All planets of the galaxy**, in any order, but each once. -/
theorem Confined.enrolled_foldl (h : ledger.Confined g) (hnodup : keys.Nodup)
    (hkeys : ∀ q ∈ keys, g.planets.contains q = true) :
    ledger.Enrolled g keys (keys.foldl Ledger.enroll (ledger, 0)) := by
  -- Planet by planet, from the first to the last. Each comes up once, so that it is still without a
  -- row of this pass.
  induction keys using List.reverseRecOn with
  | nil => exact h.enrolled_nil
  | append_singleton keys planet ih =>
    obtain ⟨hnodup, -, hdisjoint⟩ := List.nodup_append.mp hnodup
    have hnew : planet ∉ keys := fun hmem => hdisjoint planet hmem planet (by simp) rfl
    rw [List.foldl_append]
    exact (ih hnodup fun q hq => hkeys q (List.mem_append_left _ hq)).enroll
      (hkeys planet (by simp)) hnew

/-! ### The whole pass -/

/-- **What the pass leaves** of the rows that are there when the planets are gone through. -/
theorem enrolled_reconcile (ledger : Ledger α) (g : Galaxy α) :
    (ledger.retain g).Enrolled g g.planets.keys
      (ledger.sync g, (ledger.reconcile g).2.added) :=
  (confined_retain ledger g).enrolled_foldl (.of_map _ g.planets.nodup_slot_keys)
    fun _ => Slots.mem_keys_iff_contains.mp

/-- **After a synchronisation** the planets of the galaxy have a row, and no others. -/
theorem row?_sync (ledger : Ledger α) (q : PlanetKey) (g : Galaxy α) : (ledger.sync g).row? q =
    if g.planets.contains q then some ((ledger.row? q).getD ledger.freshRow) else none := by
  refine ((enrolled_reconcile ledger g).row?_eq q).trans ?_
  simp only [Slots.mem_keys_iff_contains, row?_retain]
  split <;> rfl

/-- The base prices are those from before. -/
theorem basePrices_sync (ledger : Ledger α) (g : Galaxy α) :
    (ledger.sync g).basePrices = ledger.basePrices :=
  (enrolled_reconcile ledger g).basePrices

/-- **The rows after a synchronisation**, as they are listed: one for each planet of the galaxy. -/
theorem toList_rows_sync (ledger : Ledger α) (g : Galaxy α) : (ledger.sync g).rows.toList =
    g.planets.keys.map fun q => (q, (ledger.row? q).getD ledger.freshRow) := by
  -- Both lists ascend by slot, so that it is enough to compare what is in them.
  apply Slots.eq_of_ascending (ledger.sync g).rows.toList_pairwise
  · rw [List.pairwise_map]
    exact List.pairwise_map.mpr g.planets.toList_pairwise
  · rintro ⟨q, row⟩
    rw [KeyMap.mem_toList_iff, List.mem_map]
    refine (congrArg (· = some row) (row?_sync ledger q g)).to_iff.trans ?_
    constructor
    · intro hrow
      split at hrow
      · next hlive =>
        refine ⟨q, Slots.mem_keys_iff_contains.mpr hlive, ?_⟩
        rw [Option.some.inj hrow]
      · cases hrow
    · rintro ⟨q, hq, heq⟩
      cases heq
      rw [if_pos (Slots.mem_keys_iff_contains.mp hq)]

/-- So the planets with a row are those of the galaxy, in its order, -/
theorem planets_sync (ledger : Ledger α) (g : Galaxy α) :
    (ledger.sync g).planets = g.planets.keys := by
  rw [planets, toList_rows_sync, List.map_map]
  exact List.map_id _

/-- and exactly these have one. -/
theorem contains_sync (ledger : Ledger α) (q : PlanetKey) (g : Galaxy α) :
    (ledger.sync g).contains q = g.planets.contains q := by
  rw [Bool.eq_iff_iff, ← mem_planets_iff, planets_sync, Slots.mem_keys_iff_contains]

/-- **What is reported as added** are the rows that are there now and were not before. -/
theorem added_reconcile (ledger : Ledger α) (g : Galaxy α) : (ledger.reconcile g).2.added =
    ((ledger.sync g).planets.filter fun q => !ledger.contains q).length := by
  rw [planets_sync]
  refine (enrolled_reconcile ledger g).added.trans (congrArg List.length ?_)
  -- For a planet of the galaxy it makes no difference that other rows were taken out.
  refine List.filter_congr fun q hq => ?_
  rw [contains, row?_retain, if_pos (Slots.mem_keys_iff_contains.mp hq), contains]

/-- **What is reported as removed** are the rows that were there before and are not now. -/
theorem removed_reconcile (ledger : Ledger α) (g : Galaxy α) : (ledger.reconcile g).2.removed =
    (ledger.planets.filter fun q => !(ledger.sync g).contains q).length := by
  simp only [contains_sync]
  rw [planets, List.filter_map, List.length_map]
  exact KeyMap.size_sub_size_retain ledger.rows g.planets.contains

/-! ### The second pass -/

omit [Scalar α] in
/-- No row is out of place, so that none is taken out. -/
theorem Confined.retain_eq_self (h : ledger.Confined g) : ledger.retain g = ledger := by
  rw [retain, KeyMap.retain_eq_self h]

/-- No planet is without a row, so that none is put in. -/
theorem foldl_enroll_of_contains (hkeys : ∀ q ∈ keys, ledger.contains q = true) (added : Nat) :
    keys.foldl enroll (ledger, added) = (ledger, added) := by
  induction keys with
  | nil => rfl
  | cons planet keys ih =>
    rw [List.foldl_cons, enroll_of_contains (hkeys planet List.mem_cons_self)]
    exact ih fun q hq => hkeys q (List.mem_cons_of_mem _ hq)

/-- **A ledger that is in line** with the galaxy is left as it is. -/
theorem reconcile_of_contains_eq (h : ∀ q, ledger.contains q = g.planets.contains q) :
    ledger.reconcile g = (ledger, { added := 0, removed := 0 }) := by
  have hconfined : ledger.Confined g := fun q hq => (h q).symm.trans hq
  have hkeys : ∀ q ∈ g.planets.keys, ledger.contains q = true := fun q hq =>
    (h q).trans (Slots.mem_keys_iff_contains.mp hq)
  rw [reconcile, hconfined.retain_eq_self, foldl_enroll_of_contains hkeys, Nat.sub_self]

end Ledger

end GalaxyMarket
