import GalaxyMarket.Proofs.Galaxy.Jumps

/-!
# The laws of the map of jumps

Adding a jump sets the marks of one ordered pair of systems, connecting two systems sets those of
two pairs, and disconnecting them clears the same two. No other pair is touched, whether or not the
two systems are different ones (`Galaxy.Assigns`), and a system that was a target before keeps its
place among the targets.

Once it is known which pairs an edit assigns to (`Wiring.assigns_edit`), edits of different pairs
commute, up to the order of the jumps. That connecting is done once for all, and that it leaves no
trace once it is undone, is more: it holds of the lists themselves, order included, and follows from
the two ways in which a list is changed (`Galaxy.rewire_absorb`).
-/

namespace GalaxyMarket

variable {α : Type}

namespace Galaxy

/-- One galaxy comes from another by giving some ordered pairs of systems the same marks, or by
taking the marks from all of them. -/
structure Assigns (g h : Galaxy α) (pairs : List (SystemKey × SystemKey)) (value? : Option Marks) :
    Prop extends g.SameButJumps h where
  marks? : ∀ a b, h.marks? a b = if (a, b) ∈ pairs then value? else g.marks? a b

/-- Two galaxies that differ in the order of jumps only. -/
structure SameButOrder (g h : Galaxy α) : Prop extends g.SameButJumps h where
  jumps? : ∀ key, Option.Rel List.Perm (g.jumps? key) (h.jumps? key)

variable {g h : Galaxy α} {a b : SystemKey}

/-! ### The map -/

/-- The targets of a system are those to which there are marks. -/
theorem mem_targets_iff : b ∈ g.targets a ↔ (g.marks? a b).isSome = true := by
  cases hjumps : g.jumps? a with
  | none => simp [targets, Galaxy.marks?, hjumps]
  | some jumps =>
    rw [targets_of_jumps? hjumps, marks?_of_jumps? hjumps]
    exact isSome_marksTo?_iff.symm

/-- Only systems that are there have marks, on either side. -/
theorem IsCharted.contains_of_marks? (hg : g.IsCharted) {marks : Marks}
    (hmarks : g.marks? a b = some marks) :
    g.systems.contains a = true ∧ g.systems.contains b = true := by
  obtain ⟨jumps, hjumps, hfound⟩ := Option.bind_eq_some_iff.mp hmarks
  exact ⟨exists_jumps?_iff.mp ⟨jumps, hjumps⟩, hg.live hjumps _ (marked_mem hfound)⟩

/-- Galaxies with the same marks have the same jumps, in whatever order. -/
theorem SameButJumps.sameButOrder (hgh : g.SameButJumps h) (hg : g.IsCharted) (hh : h.IsCharted)
    (hmarks : ∀ a b, h.marks? a b = g.marks? a b) : g.SameButOrder h where
  toSameButJumps := hgh
  jumps? key := by
    have hcontains := hgh.contains key
    rw [contains_eq_isSome_jumps?, contains_eq_isSome_jumps?] at hcontains
    -- A system has a list in both galaxies or in neither.
    cases hjumps : g.jumps? key with
    | none =>
      rw [hjumps] at hcontains
      rw [Option.isNone_iff_eq_none.mp (Option.isSome_eq_false_iff.mp hcontains)]
      exact .none
    | some jumps =>
      rw [hjumps] at hcontains
      obtain ⟨jumps', hjumps'⟩ := Option.isSome_iff_exists.mp hcontains
      rw [hjumps']
      refine .some (perm_of_marksTo? (hg.nodup hjumps) (hh.nodup hjumps') fun target => ?_)
      rw [← marks?_of_jumps? hjumps, ← marks?_of_jumps? hjumps', hmarks]

/-! ### Changing two lists -/

/-- Two lists are changed again, one by one, by something that makes up for the first change. -/
theorem rewire_absorb (g : Galaxy α) (a b : SystemKey) {f f' : SystemKey → List Jump → List Jump}
    (habsorb : ∀ target, f' target ∘ f target = f' target) :
    (((g.rewire a (f b)).rewire b (f a)).rewire a (f' b)).rewire b (f' a) =
      (g.rewire a (f' b)).rewire b (f' a) := by
  by_cases hne : a = b
  · -- There is one list only, which is changed four times.
    subst hne
    simp only [rewire_rewire]
    congr 1
    calc f' a ∘ f' a ∘ f a ∘ f a
        = f' a ∘ (f' a ∘ f a) ∘ f a := rfl
      _ = f' a ∘ f' a := by rw [habsorb, habsorb]
  · -- Of two lists each is changed twice, which can be done one list after the other.
    rw [rewire_comm _ (Ne.symm hne), rewire_rewire, rewire_rewire, habsorb, habsorb]

/-- A target is put into the order once. -/
theorem enlist_enlist (targets : List SystemKey) (target : SystemKey) :
    enlist (enlist targets target) target = enlist targets target :=
  if_pos (mem_enlist_iff.mpr (Or.inr rfl))

end Galaxy

/-! ### Which pairs an edit assigns to -/

/-- An edit of jumps. -/
inductive Wiring where
  | add (origin : SystemKey) (jump : Jump)
  | connect (a b : SystemKey)
  | disconnect (a b : SystemKey)

namespace Wiring

open Galaxy

/-- It as an edit of a galaxy. -/
def edit : Wiring → Edit α
  | add origin jump => .addJump origin jump
  | connect a b => .connect a b
  | disconnect a b => .disconnect a b

/-- The ordered pairs that it assigns to. -/
def pairs : Wiring → List (SystemKey × SystemKey)
  | add origin jump => [(origin, jump.target)]
  | connect a b | disconnect a b => [(a, b), (b, a)]

/-- What it assigns to them. -/
def value? : Wiring → Option Marks
  | add _ jump => some jump.marks
  | connect .. => some {}
  | disconnect .. => none

/-- The systems it needs. -/
def needs : Wiring → List SystemKey
  | add origin jump => [jump.target, origin]
  | connect a b => [b, a]
  | disconnect .. => []

/-- What it makes of a galaxy with these systems. -/
def outcome (g : Galaxy α) : Wiring → Galaxy α
  | add origin jump => g.rewire origin (withJump · jump)
  | connect a b => (g.rewire a (withLink b)).rewire b (withLink a)
  | disconnect a b => (g.rewire a (strike b)).rewire b (strike a)

variable {g : Galaxy α} {w w' : Wiring}

/-- An edit of jumps looks for the systems that it needs and then comes out as it should. -/
theorem edit_eq (g : Galaxy α) (w : Wiring) :
    g.edit w.edit = g.unlessRefused (g.provided w.needs (w.outcome g)) := by
  cases w with
  | add origin jump => exact congrArg g.unlessRefused (addJump_eq ..)
  | connect a b => exact congrArg g.unlessRefused (connect_eq ..)
  | disconnect a b => rfl

/-- If these are there, it assigns to its pairs. -/
theorem assigns_outcome (hlive : ∀ key ∈ w.needs, g.systems.contains key = true) :
    g.Assigns (w.outcome g) w.pairs w.value? := by
  cases w with
  | add origin jump =>
    have horigin : g.systems.contains origin = true := hlive origin (by simp [needs])
    refine ⟨g.sameButJumps_rewire origin (withJump · jump), fun c d => ?_⟩
    simp only [outcome, pairs, value?, marks?_rewire_withJump horigin, List.mem_singleton]
  | connect a b =>
    have ha : g.systems.contains a = true := hlive a (by simp [needs])
    have hfirst := g.sameButJumps_rewire a (withLink b)
    have hsecond := (g.rewire a (withLink b)).sameButJumps_rewire b (withLink a)
    have hb := (hfirst.contains b).trans (hlive b (by simp [needs]))
    refine ⟨hfirst.trans hsecond, fun c d => ?_⟩
    -- What the second jump does not say the first one does.
    rw [outcome, marks?_rewire_withLink hb, marks?_rewire_withLink ha, ← ite_or]
    simp only [pairs, value?, List.mem_pair, or_comm (a := (c, d) = (b, a))]
  | disconnect a b =>
    refine ⟨(g.sameButJumps_rewire a (strike b)).trans
      ((g.rewire a (strike b)).sameButJumps_rewire b (strike a)), fun c d => ?_⟩
    rw [outcome, marks?_rewire_strike, marks?_rewire_strike, ← ite_or]
    simp only [pairs, value?, List.mem_pair, or_comm (a := (c, d) = (b, a))]

/-- **An edit assigns to its pairs** if the systems it needs are there, and to no pair otherwise. -/
theorem assigns_edit (g : Galaxy α) (w : Wiring) :
    g.Assigns (g.edit w.edit) (if (g.missing? w.needs).isSome then [] else w.pairs) w.value? := by
  cases hmissing : g.missing? w.needs with
  | some key =>
    rw [edit_eq, provided_of_missing? hmissing]
    exact ⟨.refl g, fun c d => rfl⟩
  | none =>
    have hlive := missing?_eq_none_iff.mp hmissing
    rw [edit_eq, provided_of_live hlive]
    exact assigns_outcome hlive

/-- **Edits of different pairs commute**, up to the order of jumps. -/
theorem edit_comm (horderly : g.IsOrderly) (hg : g.IsCharted)
    (hdisjoint : w.pairs.Disjoint w'.pairs) :
    ((g.edit w.edit).edit w'.edit).SameButOrder ((g.edit w'.edit).edit w.edit) := by
  have hfirst := assigns_edit g w
  have hfirst' := assigns_edit g w'
  have hsecond := assigns_edit (g.edit w.edit) w'
  have hsecond' := assigns_edit (g.edit w'.edit) w
  -- Neither edit changes which systems there are, so that each is refused first or last.
  rw [missing?_congr hfirst.contains] at hsecond
  rw [missing?_congr hfirst'.contains] at hsecond'
  have hcharted : ∀ v v' : Wiring, ((g.edit v.edit).edit v'.edit).IsCharted := fun v v' =>
    (hg.edit horderly.systems _).edit (horderly.edit _).systems _
  have hsame := (hfirst.toSameButJumps.trans hsecond.toSameButJumps).symm.trans
    (hfirst'.toSameButJumps.trans hsecond'.toSameButJumps)
  refine hsame.sameButOrder (hcharted w w') (hcharted w' w) fun c d => ?_
  rw [hsecond.marks?, hsecond'.marks?, hfirst.marks?, hfirst'.marks?]
  -- A pair gets what the only edit of it says, or keeps its marks if neither edit is about it.
  by_cases hpair : (c, d) ∈ w.pairs
  · have hother : (c, d) ∉ if (g.missing? w'.needs).isSome then [] else w'.pairs := by
      split
      · exact List.not_mem_nil
      · exact hdisjoint hpair
    rw [if_neg hother, if_neg hother]
  · have hother : (c, d) ∉ if (g.missing? w.needs).isSome then [] else w.pairs := by
      split
      · exact List.not_mem_nil
      · exact hpair
    rw [if_neg hother, if_neg hother]

end Wiring

/-! ### All laws -/

namespace Galaxy

/-- The lists of jumps are a map from ordered pairs of systems to marks, with the targets of each
system in the order in which they came. -/
structure MapsJumps (g : Galaxy α) : Prop where
  /-- The marks of all pairs and the order of the targets are the lists of jumps. -/
  jumps_eq : ∀ {a jumps}, g.jumps? a = some jumps → (g.targets a).Nodup ∧
    jumps = (g.targets a).filterMap fun b => (g.marks? a b).map (Jump.marked b)
  /-- The targets of a system are those for which there are marks. -/
  mem_targets_iff : ∀ {a b}, b ∈ g.targets a ↔ (g.marks? a b).isSome = true
  /-- The map is one of pairs of systems that are there. -/
  contains : ∀ {a b marks}, g.marks? a b = some marks →
    g.systems.contains a = true ∧ g.systems.contains b = true
  /-- Adding a jump sets the marks of its pair. A target that is new goes to the end. -/
  addJump : ∀ {a jump}, g.systems.contains a = true → g.systems.contains jump.target = true →
    ∃ h, g.addJump a jump = .ok h ∧ g.Assigns h [(a, jump.target)] (some jump.marks) ∧
      ∀ c, h.targets c = if c = a then enlist (g.targets a) jump.target else g.targets c
  /-- Connecting sets plain marks both ways. To do it once more changes nothing, and if it is undone
  nothing is left of it. -/
  connect : ∀ {a b}, g.systems.contains a = true → g.systems.contains b = true →
    ∃ h, g.connect a b = .ok h ∧ g.Assigns h [(a, b), (b, a)] (some {}) ∧
      (∀ c, h.targets c = if c = a then enlist (g.targets a) b
        else if c = b then enlist (g.targets b) a else g.targets c) ∧
      h.connect a b = .ok h ∧ h.disconnect a b = g.disconnect a b
  /-- Disconnecting clears both ways. What is left stays in its order. -/
  disconnect : ∀ a b, g.Assigns (g.disconnect a b) [(a, b), (b, a)] none ∧
    ∀ c, (g.disconnect a b).targets c = if c = a then (g.targets a).filter (· != b)
      else if c = b then (g.targets b).filter (· != a) else g.targets c
  /-- Edits of different pairs commute, up to the order of the jumps of a system. -/
  comm : ∀ w w' : Wiring, w.pairs.Disjoint w'.pairs →
    ((g.edit w.edit).edit w'.edit).SameButOrder ((g.edit w'.edit).edit w.edit)

variable {g : Galaxy α} {a b : SystemKey}

/-- Connecting puts each of two systems among the targets of the other. -/
theorem targets_connect (ha : g.systems.contains a = true) (hb : g.systems.contains b = true)
    (c : SystemKey) : ((Wiring.connect a b).outcome g).targets c =
      if c = a then enlist (g.targets a) b
      else if c = b then enlist (g.targets b) a else g.targets c := by
  have hb' := ((g.sameButJumps_rewire a (withLink b)).contains b).trans hb
  rw [Wiring.outcome, targets_rewire_withLink hb', targets_rewire_withLink ha,
    targets_rewire_withLink ha]
  -- A system that is connected to itself is taken in twice, which is once.
  by_cases hcb : c = b
  · subst hcb
    by_cases hca : c = a
    · subst hca
      rw [if_pos rfl, if_pos rfl, if_pos rfl]
      exact enlist_enlist ..
    · rw [if_pos rfl, if_neg hca, if_neg hca, if_pos rfl]
  · rw [if_neg hcb, if_neg hcb]

/-- Disconnecting takes each of them from the targets of the other. -/
theorem targets_disconnect (g : Galaxy α) (a b c : SystemKey) :
    (g.disconnect a b).targets c = if c = a then (g.targets a).filter (· != b)
      else if c = b then (g.targets b).filter (· != a) else g.targets c := by
  rw [disconnect_eq, targets_rewire_strike, targets_rewire_strike, targets_rewire_strike]
  by_cases hcb : c = b
  · subst hcb
    by_cases hca : c = a
    · subst hca
      rw [if_pos rfl, if_pos rfl, if_pos rfl, List.filter_filter]
      simp only [Bool.and_self]
    · rw [if_pos rfl, if_neg hca, if_neg hca, if_pos rfl]
  · rw [if_neg hcb, if_neg hcb]

/-- Connecting two systems that are connected changes nothing. -/
theorem connect_connect (g : Galaxy α) (a b : SystemKey) :
    (Wiring.connect a b).outcome ((Wiring.connect a b).outcome g) =
      (Wiring.connect a b).outcome g :=
  rewire_absorb g a b withLink_comp_withLink

/-- What connecting added disconnecting strikes, and what it changed disconnecting would have
struck. -/
theorem disconnect_connect (g : Galaxy α) (a b : SystemKey) :
    ((Wiring.connect a b).outcome g).disconnect a b = g.disconnect a b := by
  rw [disconnect_eq, disconnect_eq]
  exact rewire_absorb g a b strike_comp_withLink

/-- All laws hold in every galaxy that is charted. -/
theorem IsCharted.mapsJumps (hg : g.IsCharted) (horderly : g.IsOrderly) : g.MapsJumps := by
  constructor
  case jumps_eq =>
    intro a jumps hjumps
    have hnodup := hg.nodup hjumps
    simp only [targets_of_jumps? hjumps, marks?_of_jumps? hjumps]
    exact ⟨hnodup, jumps_eq_filterMap hnodup⟩
  case mem_targets_iff => exact Galaxy.mem_targets_iff
  case contains => exact hg.contains_of_marks?
  case addJump =>
    intro a jump ha htarget
    have hlive : ∀ key ∈ (Wiring.add a jump).needs, g.systems.contains key = true := by
      simp [Wiring.needs, ha, htarget]
    exact ⟨_, (addJump_eq ..).trans (provided_of_live hlive), Wiring.assigns_outcome hlive,
      targets_rewire_withJump ha jump⟩
  case connect =>
    intro a b ha hb
    have hlive : ∀ key ∈ (Wiring.connect a b).needs, g.systems.contains key = true := by
      simp [Wiring.needs, ha, hb]
    have hassigns := Wiring.assigns_outcome hlive
    refine ⟨_, (connect_eq ..).trans (provided_of_live hlive), hassigns, targets_connect ha hb,
      ?_, disconnect_connect g a b⟩
    -- Connecting a second time is not refused either, and comes out where the first time did.
    refine (connect_eq ..).trans ((congrArg _ (connect_connect g a b)).trans ?_)
    exact provided_of_live fun key hkey => (hassigns.contains key).trans (hlive key hkey)
  case disconnect =>
    intro a b
    exact ⟨Wiring.assigns_outcome (w := .disconnect a b) (by simp [Wiring.needs]),
      targets_disconnect g a b⟩
  case comm => exact fun w w' hdisjoint => Wiring.edit_comm horderly hg hdisjoint

/-- **The lists of jumps implement a map**, whatever edits a galaxy was made by. -/
theorem mapsJumps_ofEdits (edits : List (Edit α)) : (ofEdits edits).MapsJumps :=
  (isCharted_ofEdits edits).mapsJumps (isOrderly_ofEdits edits)

end Galaxy

end GalaxyMarket
