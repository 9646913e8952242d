import GalaxyMarket.Market.Pricing
import GalaxyMarket.Proofs.Market.Reconciliation

/-!
# Reading and writing a ledger

A ledger is written in two ways only. A synchronisation settles which rows there are
(`Ledger.row?_sync`), and everything else changes quotes in place (`Ledger.get?_modify`): it adds no
row, drops none, and leaves every other quote of the same row as it is. What a pass or a round of
prices does to a ledger is read off these two.
-/

namespace GalaxyMarket

/-- A value is changed in its own cell, and only if the cell is at the version of the key. -/
theorem KeyMap.get?_modify {kind : Kind} {β : Type} (m : KeyMap kind β) (key other : Key kind)
    (f : β → β) :
    (m.modify key f).get? other = if other = key then (m.get? other).map f else m.get? other := by
  obtain ⟨slot, version⟩ := other
  obtain ⟨slot', version'⟩ := key
  unfold get? modify
  rw [Array.getElem?_modify]
  by_cases hslot : slot' = slot
  · rw [if_pos hslot]
    cases m.cells[slot]? with
    | none => simp
    | some cell =>
      cases cell with
      | none => simp
      | some entry =>
        -- The entry is that of the one key or of the other, or of neither.
        obtain ⟨v, value⟩ := entry
        by_cases hother : v = version
        · by_cases hkey : v = version'
          · simp [hslot, ← hother, ← hkey]
          · simp [← hother, hkey]
        · simp [hother]
  · rw [if_neg hslot, if_neg (by simp [Ne.symm hslot])]

namespace Ledger

variable {α : Type} (ledger : Ledger α) (planet q : PlanetKey) (commodity d : Nat)
  (f : Quote α → Quote α)

theorem get?_eq (ledger : Ledger α) (q : PlanetKey) (d : Nat) :
    ledger.get? q d = (ledger.row? q).bind (·[d]?) := rfl

/-! ### In place -/

/-- The row of one planet is changed and no other, -/
theorem row?_modify : (ledger.modify planet commodity f).row? q =
    if q = planet then (ledger.row? q).map (·.modify commodity f) else ledger.row? q :=
  KeyMap.get?_modify ..

/-- Changing one quote leaves all others alone. -/
theorem get?_modify : (ledger.modify planet commodity f).get? q d =
    if q = planet ∧ d = commodity then (ledger.get? q d).map f else ledger.get? q d := by
  rw [get?_eq, get?_eq, row?_modify]
  by_cases hq : q = planet
  · rw [if_pos hq]
    cases ledger.row? q with
    | none => simp
    | some row =>
      by_cases hd : commodity = d
      · simp [hq, hd]
      · simp [hd, Ne.symm hd]
  · rw [if_neg hq, if_neg fun h => hq h.1]

/-- A ledger with the rows of another, each as wide as before, and the same base prices. -/
structure SameShape (before after : Ledger α) : Prop where
  basePrices : after.basePrices = before.basePrices
  widths : ∀ q, (after.row? q).map List.length = (before.row? q).map List.length

/-- Being of the same shape does not depend on the order in which two ledgers are named. -/
theorem SameShape.refl : ledger.SameShape ledger := ⟨rfl, fun _ => rfl⟩

variable {ledger} in
theorem SameShape.trans {middle after : Ledger α} (h : ledger.SameShape middle)
    (h' : middle.SameShape after) : ledger.SameShape after :=
  ⟨h'.basePrices.trans h.basePrices, fun q => (h'.widths q).trans (h.widths q)⟩

variable {ledger} in
theorem SameShape.symm {after : Ledger α} (h : ledger.SameShape after) : after.SameShape ledger :=
  ⟨h.basePrices.symm, fun q => (h.widths q).symm⟩

variable {ledger q} in
/-- They have rows for the same planets, -/
theorem SameShape.contains_eq {after : Ledger α} (h : ledger.SameShape after) :
    after.contains q = ledger.contains q := by
  have hwidth := congrArg Option.isSome (h.widths q)
  rwa [Option.isSome_map, Option.isSome_map] at hwidth

/-- Changing a quote keeps the shape. -/
theorem sameShape_modify : ledger.SameShape (ledger.modify planet commodity f) where
  basePrices := rfl
  widths q := by
    rw [row?_modify]
    split
    · rw [Option.map_map]
      exact congrArg (Option.map · _) (funext fun row => row.length_modify f commodity)
    · rfl

variable {ledger} in
/-- Rows are equal if their quotes are. -/
theorem SameShape.row?_eq {after : Ledger α} (h : ledger.SameShape after) {q : PlanetKey}
    (hquotes : ∀ d, after.get? q d = ledger.get? q d) : after.row? q = ledger.row? q := by
  have hwidth := h.widths q
  simp only [get?_eq] at hquotes
  -- Without a row there are no quotes either, so that the widths have to tell.
  cases hbefore : ledger.row? q with
  | none => simpa [hbefore] using hwidth
  | some row =>
    rw [hbefore] at hquotes hwidth
    obtain ⟨row', hafter, -⟩ := Option.map_eq_some_iff.mp hwidth
    rw [hafter] at hquotes ⊢
    exact congrArg some (List.ext_getElem? hquotes)

variable {ledger} in
/-- and in these a quote for the same commodities, -/
theorem SameShape.exists_get? {after : Ledger α} (h : ledger.SameShape after) {q : PlanetKey}
    {d : Nat} {quote : Quote α} (hquote : ledger.get? q d = some quote) :
    ∃ quote', after.get? q d = some quote' := by
  obtain ⟨row, hrow, hd⟩ := Option.bind_eq_some_iff.mp hquote
  obtain ⟨row', hrow', hlength⟩ := Option.map_eq_some_iff.mp
    ((h.widths q).trans (congrArg (Option.map List.length) hrow))
  have hlt : d < row'.length := hlength ▸ (List.getElem?_eq_some_iff.mp hd).1
  exact ⟨row'[d], by rw [get?_eq, hrow', Option.bind_some, List.getElem?_eq_getElem hlt]⟩

variable {ledger} in
/-- no more and no fewer. -/
theorem SameShape.isSome_get? {after : Ledger α} (h : ledger.SameShape after) (q : PlanetKey)
    (d : Nat) : (after.get? q d).isSome = (ledger.get? q d).isSome := by
  rw [Bool.eq_iff_iff, Option.isSome_iff_exists, Option.isSome_iff_exists]
  exact ⟨fun ⟨_, hquote⟩ => h.symm.exists_get? hquote, fun ⟨_, hquote⟩ => h.exists_get? hquote⟩

/-! ### Synchronisation -/

/-- Without a row there is no quote. -/
theorem get?_of_not_contains (h : ¬ledger.contains q = true) : ledger.get? q d = none := by
  rw [contains, Bool.not_eq_true, Option.isSome_eq_false_iff, Option.isNone_iff_eq_none] at h
  rw [get?_eq, h, Option.bind_none]

/-- **The quotes after a synchronisation** are those that were there, and on new planets fresh ones
at base price. -/
theorem get?_sync [Scalar α] (g : Galaxy α) : (ledger.sync g).get? q d =
    if g.planets.contains q then
      if ledger.contains q then ledger.get? q d
      else ledger.basePrices[d]?.map fun price => { supply := 0, demand := 0, price }
    else none := by
  rw [get?_eq, row?_sync]
  split
  · rw [Option.bind_some, contains, get?_eq]
    -- A row that was there is kept, and otherwise each quote is made of a base price.
    cases ledger.row? q with
    | some row => rfl
    | none => exact List.getElem?_map
  · rfl

variable {ledger q d} in
/-- A quote is an old one, or fresh at base price. -/
theorem get?_sync_cases [Scalar α] {g : Galaxy α} {quote : Quote α}
    (hquote : (ledger.sync g).get? q d = some quote) : ledger.get? q d = some quote ∨
      ∃ price, ledger.basePrices[d]? = some price ∧
        quote = { supply := 0, demand := 0, price } := by
  rw [get?_sync] at hquote
  split at hquote
  · split at hquote
    · exact Or.inl hquote
    · obtain ⟨price, hprice, rfl⟩ := Option.map_eq_some_iff.mp hquote
      exact Or.inr ⟨price, hprice, rfl⟩
  · cases hquote

/-! ### Prices -/

variable (g : Galaxy α) (price : Int) (key : SystemKey)

/-- Prices are written in place. -/
theorem sameShape_priceSystem : ledger.SameShape (ledger.priceSystem g commodity price key) := by
  unfold priceSystem
  induction g.planetsIn key generalizing ledger with
  | nil => exact .refl ledger
  | cons visit visits ih => exact (sameShape_modify ..).trans (ih _)

/-- Pricing a system sets the price on its planets and changes nothing else. -/
theorem get?_priceSystem : (ledger.priceSystem g commodity price key).get? q d =
    if d = commodity ∧ q ∈ (g.planetsIn key).map Prod.fst
    then (ledger.get? q d).map fun quote => { quote with price }
    else ledger.get? q d := by
  unfold priceSystem
  -- Planet by planet; what was written before is written again or left alone.
  induction g.planetsIn key generalizing ledger with
  | nil => simp
  | cons visit visits ih =>
    rw [List.foldl_cons, ih, get?_modify]
    by_cases hd : d = commodity
    · by_cases hq : q = visit.1
      · -- A planet that is listed again gets the same price again.
        simp [hd, hq, Function.comp_def]
      · simp only [hd, hq, List.map_cons, List.mem_cons, false_or, false_and, if_false]
    · simp [hd]

/-- The last of some systems that lists a planet, with its multiplier. -/
def pricedBy? (g : Galaxy α) (q : PlanetKey) (entries : List (SystemKey × α)) :
    Option (SystemKey × α) :=
  entries.reverse.find? fun entry => decide (q ∈ (g.planetsIn entry.1).map Prod.fst)

/-- It is one of these systems, and it does list the planet. -/
theorem pricedBy?_eq_some {g : Galaxy α} {q : PlanetKey}
    {entries : List (SystemKey × α)} {entry : SystemKey × α}
    (h : pricedBy? g q entries = some entry) :
    entry ∈ entries ∧ q ∈ (g.planetsIn entry.1).map Prod.fst :=
  ⟨List.mem_reverse.mp (List.mem_of_find?_eq_some h), of_decide_eq_true (List.find?_some h :)⟩

/-- There is none if no system lists the planet. -/
theorem pricedBy?_eq_none_iff {g : Galaxy α} {q : PlanetKey}
    {entries : List (SystemKey × α)} :
    pricedBy? g q entries = none ↔
      ∀ entry ∈ entries, q ∉ (g.planetsIn entry.1).map Prod.fst := by
  unfold pricedBy?
  simp

variable [Scalar α] (basePrice : Int)

/-- What `writePrices` does for one system. -/
def priceNext (ledger : Ledger α) (entry : SystemKey × α) : Ledger α :=
  ledger.priceSystem g commodity (scaledPrice basePrice entry.2) entry.1

variable {ledger planet q commodity d g basePrice}

/-- All systems are priced in place. -/
theorem sameShape_foldl_priceNext (entries : List (SystemKey × α)) :
    ledger.SameShape (entries.foldl (priceNext commodity g basePrice) ledger) := by
  induction entries generalizing ledger with
  | nil => exact .refl ledger
  | cons entry entries ih => exact (sameShape_priceSystem ..).trans ih

/-- A planet is priced by the last system that lists it. -/
theorem get?_foldl_priceNext (entries : List (SystemKey × α)) :
    (entries.foldl (priceNext commodity g basePrice) ledger).get? q commodity =
      (ledger.get? q commodity).map fun quote => { quote with
        price := (pricedBy? g q entries).elim quote.price fun entry =>
          scaledPrice basePrice entry.2 } := by
  -- The first system is looked at last, since all others are priced after it.
  induction entries generalizing ledger with
  | nil => simp [pricedBy?]
  | cons entry entries ih =>
    rw [List.foldl_cons, ih, priceNext, get?_priceSystem]
    unfold pricedBy?
    rw [List.reverse_cons, List.find?_append]
    -- What is written first shows only if nothing is written later.
    cases entries.reverse.find? fun e => decide (q ∈ (g.planetsIn e.1).map Prod.fst) with
    | some later =>
      split
      · rw [Option.map_map]
        rfl
      · rfl
    | none =>
      rw [Option.none_or, List.find?_singleton]
      by_cases hq : q ∈ (g.planetsIn entry.1).map Prod.fst
      · rw [if_pos ⟨rfl, hq⟩, if_pos (decide_eq_true hq), Option.map_map]
        rfl
      · rw [if_neg fun h => hq h.2, if_neg (by simpa using hq)]

/-- Quotes of other commodities keep their prices. -/
theorem get?_foldl_priceNext_of_ne (entries : List (SystemKey × α)) (hd : d ≠ commodity) :
    (entries.foldl (priceNext commodity g basePrice) ledger).get? q d = ledger.get? q d := by
  induction entries generalizing ledger with
  | nil => rfl
  | cons entry entries ih =>
    rw [List.foldl_cons, ih, priceNext, get?_priceSystem, if_neg fun h => hd h.1]

end Ledger

end GalaxyMarket
