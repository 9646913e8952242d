import GalaxyMarket.Galaxy.InPlace
import GalaxyMarket.Proofs.Galaxy.JumpMap

/-!
# Failed edits change nothing

An edit in place is refused between two of its steps, and what was changed before stays changed. No
step that can be refused comes after a change, though: each edit is brought into the form of one
check for all systems that it needs, and then of all changes at once (`Editing.commit`). For two of
them this takes an argument. The second jump of a connection cannot be refused once the first one
was added, because this has removed no system; and the marks of the first jump to a target are those
of the only one, because the lists of jumps are charted.

In this form an edit in place does what the edit that returns a new galaxy does, so that galaxies
edited in place, whatever was refused on the way, are those of the rest of the theory
(`Galaxy.ofEditing_eq`).
-/

namespace GalaxyMarket

variable {α β γ : Type}

open Galaxy

/-- The first jump to a target is the only one. -/
theorem remark?_eq (jump : Jump) {jumps : List Jump} (hnodup : (jumps.map Jump.target).Nodup) :
    (remark? jump jumps).getD (jumps ++ [jump]) = withJump jumps jump := by
  -- What is left of the list after the first jump to the target has no other, and stays as it is.
  have hremark : remark? jump jumps = if jumps.any (·.target == jump.target) then
      some (jumps.map fun old => if old.target == jump.target then jump else old) else none := by
    induction jumps with
    | nil => rfl
    | cons old jumps ih =>
      obtain ⟨hnew, hnodup⟩ := List.nodup_cons.mp hnodup
      rw [remark?, List.any_cons, List.map_cons]
      by_cases hold : (old.target == jump.target) = true
      · rw [if_pos hold, if_pos (by simp [hold]), if_pos hold]
        have htarget : old.target = jump.target := beq_iff_eq.mp hold
        rw [map_replace_of_notMem (htarget ▸ hnew) jump, htarget]
      · rw [if_neg hold, if_neg hold, ih hnodup, Bool.eq_false_iff.mpr hold, Bool.false_or]
        split <;> rfl
  rw [hremark, withJump]
  split <;> rfl

namespace Editing

/-- Makes all changes of an edit at once, or refuses it. -/
def commit (result : Except GalaxyError (β × Galaxy α)) : Editing α β :=
  match result with
  | .ok (value, h) => do
    set h
    return value
  | .error e => throw e

section Bind

variable {x : Editing α β} {f : β → Editing α γ} {g h : Galaxy α}

/-- A program goes on where its first part came to an end, -/
theorem run_bind_of_ok {value : β} (hx : x.run g = .ok value h) :
    (x >>= f).run g = (f value).run h := by
  change EStateM.bind x f g = _
  rw [EStateM.bind, show x g = _ from hx]
  rfl

/-- or stops with it, in the state that it left. -/
theorem run_bind_of_error {e : GalaxyError} (hx : x.run g = .error e h) :
    (x >>= f).run g = .error e h := by
  change EStateM.bind x f g = _
  rw [EStateM.bind, show x g = _ from hx]

end Bind

variable {g : Galaxy α} {program : Editing α β}

/-- A check for a system comes before everything else, so that a refusal leaves the galaxy as it
was. -/
theorem run_require_bind (key : SystemKey) (program : Editing α β) (g : Galaxy α) :
    (require key >>= fun _ => program).run g =
      if g.systems.contains key then program.run g else .error (.systemNotFound key) g := by
  have hrequire : (require key).run g =
      if g.systems.contains key then .ok () g else .error (.systemNotFound key) g := by
    refine (run_bind_of_ok rfl).trans ?_
    cases g.systems.contains key <;> rfl
  split
  · next hlive => exact run_bind_of_ok (hrequire.trans (if_pos hlive))
  · next hdead => exact run_bind_of_error (hrequire.trans (if_neg hdead))

/-- Setting something about one system. -/
theorem run_require_change (key : SystemKey) (f : System α → System α) (g : Galaxy α) :
    (require key >>= fun _ => change key f).run g =
      (commit ((g.updateSystem key f).map ((), ·))).run g := by
  rw [run_require_bind, updateSystem]
  split <;> rfl

/-- Setting a faction takes one check and one change, -/
theorem run_setFaction (key : SystemKey) (faction? : Option ℕ) (g : Galaxy α) :
    (setFaction key faction?).run g =
      (commit ((g.setFaction key faction?).map ((), ·))).run g :=
  run_require_change ..

/-- setting a nebula does, -/
theorem run_setNebula (key : SystemKey) (nebula : Nebula α) (g : Galaxy α) :
    (setNebula key nebula).run g = (commit ((g.setNebula key nebula).map ((), ·))).run g :=
  run_require_change ..

/-- and adding a planet does. -/
theorem run_addPlanet (system : SystemKey) (planet : Planet) (g : Galaxy α) :
    (addPlanet system planet).run g = (commit (g.addPlanet system planet)).run g := by
  rw [addPlanet, run_require_bind, Galaxy.addPlanet]
  split <;> rfl

/-- In a charted galaxy **adding a jump** takes two checks and one change. -/
theorem run_addJump (hg : g.IsCharted) (origin : SystemKey) (jump : Jump) :
    (addJump origin jump).run g = (commit ((g.addJump origin jump).map ((), ·))).run g := by
  rw [addJump, run_require_bind, Galaxy.addJump]
  split
  · -- Both change the list of the origin, which is charted, to the same one.
    have hsame : ∀ system, g.systems.get? origin = some system →
        { system with jumps := (remark? jump system.jumps).getD (system.jumps ++ [jump]) } =
          { system with jumps := withJump system.jumps jump } := by
      intro system hsystem
      rw [remark?_eq jump (hg.nodup (jumps?_of_system? hsystem))]
    rw [run_require_change, updateSystem_eq, updateSystem_eq, Slots.modify_congr hsame]
  · rfl

/-- Connecting adds a jump and then another one, and the second time there is nothing in the way. -/
theorem run_connect (hg : g.IsCharted) (a b : SystemKey) :
    (connect a b).run g = (commit ((g.connect a b).map ((), ·))).run g := by
  have hthere := run_addJump hg a { target := b }
  cases hfirst : g.addJump a { target := b } with
  | error e =>
    rw [hfirst] at hthere
    rw [Galaxy.connect, hfirst]
    exact run_bind_of_error hthere
  | ok middle =>
    -- The first jump is in place by now, so that a refusal of the second one would be too late.
    rw [hfirst] at hthere
    obtain ⟨h, hsecond⟩ := exists_addJump_back hfirst
    have hconnect : g.connect a b = .ok h := by
      rw [Galaxy.connect, hfirst]
      exact hsecond
    refine (run_bind_of_ok hthere).trans ?_
    rw [run_addJump (hg.addJump hfirst), hsecond, hconnect]
    rfl

end Editing

namespace Galaxy

/-! ### Galaxies edited in place -/

/-- The galaxy after an edit in place, refused or not. -/
def after (g : Galaxy α) (program : Editing α β) : Galaxy α :=
  match program.run g with
  | .ok _ h | .error _ h => h

/-- The galaxy after an edit, if those that may be refused are carried out in place. -/
def editInPlace (g : Galaxy α) : Edit α → Galaxy α
  | .setFaction key faction? => g.after (.setFaction key faction?)
  | .setNebula key nebula => g.after (.setNebula key nebula)
  | .addPlanet system planet => g.after (.addPlanet system planet)
  | .addJump origin jump => g.after (.addJump origin jump)
  | .connect a b => g.after (.connect a b)
  | e => g.edit e

/-- The galaxy that some edits in place make of an empty one. -/
def ofEditing (edits : List (Edit α)) : Galaxy α := edits.foldl editInPlace {}

variable {g : Galaxy α}

/-- What a program leaves is what its commitment leaves. -/
theorem after_eq {program : Editing α β} {result : Except GalaxyError (β × Galaxy α)}
    (hrun : program.run g = (Editing.commit result).run g) :
    g.after program = g.unlessRefused (result.map Prod.snd) := by
  rw [after, hrun]
  cases result <;> rfl

/-- An edit in place leaves what the edit makes that returns a new galaxy. -/
theorem IsCharted.editInPlace_eq (hg : g.IsCharted) (e : Edit α) : g.editInPlace e = g.edit e := by
  -- Most programs return nothing, so that there is only the galaxy to compare.
  have hunit : ∀ {program : Editing α Unit} {result : Except GalaxyError (Galaxy α)},
      program.run g = (Editing.commit (result.map ((), ·))).run g →
        g.after program = g.unlessRefused result := by
    intro program result hrun
    rw [after_eq hrun]
    cases result <;> rfl
  cases e with
  | setFaction key faction? => exact hunit (Editing.run_setFaction ..)
  | setNebula key nebula => exact hunit (Editing.run_setNebula ..)
  | addPlanet system planet => exact after_eq (Editing.run_addPlanet ..)
  | addJump origin jump => exact hunit (Editing.run_addJump hg ..)
  | connect a b => exact hunit (Editing.run_connect hg ..)
  | _ => rfl

/-- **Editing in place is editing**, whatever is refused on the way. -/
theorem ofEditing_eq (edits : List (Edit α)) : ofEditing edits = ofEdits edits := by
  suffices h : ∀ g : Galaxy α, g.IsOrderly → g.IsCharted →
      edits.foldl editInPlace g = edits.foldl edit g from h {} isOrderly_empty isCharted_empty
  intro g horderly hg
  -- Each edit meets a charted galaxy, where editing in place is editing, and leaves one.
  induction edits generalizing g with
  | nil => rfl
  | cons e edits ih =>
    rw [List.foldl_cons, List.foldl_cons, hg.editInPlace_eq]
    exact ih _ (horderly.edit e) (hg.edit horderly.systems e)

/-! ### What a refusal leaves -/

/-- An edit that needs some systems is carried out as a whole or not at all. -/
structure AllOrNothing (g : Galaxy α) (needs : List SystemKey) (program : Editing α β)
    (result : Except GalaxyError (β × Galaxy α)) : Prop where
  /-- It is refused if and only if one of the systems is not there. -/
  refused_iff : (∃ e h, program.run g = .error e h) ↔
    ∃ key ∈ needs, g.systems.contains key = false
  /-- A refusal names the first of these, and nothing has changed. -/
  refused : ∀ {e h}, program.run g = .error e h → h = g ∧
    ∃ key ∈ needs, g.systems.contains key = false ∧ g.missing? needs = some key ∧
      e = .systemNotFound key
  /-- Otherwise it does what it is there for. -/
  done_iff : ∀ {value h}, program.run g = .ok value h ↔ result = .ok (value, h)

/-- A program that looks for the systems it needs and then makes all of its changes is carried out
as a whole or not at all. -/
theorem AllOrNothing.of_provided {needs : List SystemKey} {program : Editing α β} {value : β}
    {h : Galaxy α} {result : Except GalaxyError (β × Galaxy α)}
    (hrun : program.run g = (Editing.commit result).run g)
    (hresult : result = g.provided needs (value, h)) : g.AllOrNothing needs program result := by
  cases hmissing : g.missing? needs with
  | some key =>
    -- The refusal is the only outcome, and it names the system that is missing.
    obtain ⟨hmem, hdead⟩ := mem_of_missing? hmissing
    rw [provided_of_missing? hmissing] at hresult
    rw [hresult] at hrun
    constructor
    case refused_iff => exact iff_of_true ⟨_, _, hrun⟩ ⟨key, hmem, hdead⟩
    case refused =>
      intro e after hrefused
      cases hrun.symm.trans hrefused
      exact ⟨rfl, key, hmem, hdead, hmissing, rfl⟩
    case done_iff =>
      intro value after
      rw [hrun, hresult]
      exact iff_of_false nofun nofun
  | none =>
    have hlive := missing?_eq_none_iff.mp hmissing
    rw [provided_of_live hlive] at hresult
    rw [hresult] at hrun
    -- Everything is there, so that no outcome is a refusal.
    have hok : ∀ {e after}, program.run g ≠ .error e after := by
      intro e after hrefused
      cases hrun.symm.trans hrefused
    constructor
    case refused_iff =>
      refine iff_of_false (fun ⟨_, _, hrefused⟩ => hok hrefused) ?_
      rintro ⟨key, hkey, hdead⟩
      rw [hlive key hkey] at hdead
      cases hdead
    case refused => exact fun hrefused => absurd hrefused hok
    case done_iff =>
      intro value' after
      rw [hrun, hresult]
      constructor
      · rintro ⟨⟩
        rfl
      · rintro ⟨⟩
        rfl

/-- The edits that may be refused are carried out as a whole or not at all. -/
structure EditsWhole (g : Galaxy α) : Prop where
  setFaction : ∀ key faction?, g.AllOrNothing [key] (.setFaction key faction?)
    ((g.setFaction key faction?).map ((), ·))
  setNebula : ∀ key nebula, g.AllOrNothing [key] (.setNebula key nebula)
    ((g.setNebula key nebula).map ((), ·))
  addPlanet : ∀ system planet, g.AllOrNothing [system] (.addPlanet system planet)
    (g.addPlanet system planet)
  addJump : ∀ origin jump, g.AllOrNothing [jump.target, origin] (.addJump origin jump)
    ((g.addJump origin jump).map ((), ·))
  connect : ∀ a b, g.AllOrNothing [b, a] (.connect a b) ((g.connect a b).map ((), ·))
  /-- No connection leads one way only. -/
  connect_both : ∀ a b, g.after (.connect a b) = g ∨
    g.Assigns (g.after (.connect a b)) [(a, b), (b, a)] (some {})

/-- In a charted galaxy every edit is. -/
theorem IsCharted.editsWhole (hg : g.IsCharted) : g.EditsWhole := by
  have hupdate : ∀ key (f : System α → System α), (g.updateSystem key f).map ((), ·) =
      g.provided [key] ((), { g with systems := g.systems.modify key f }) := fun key f =>
    (congrArg _ (updateSystem_eq ..)).trans (map_provided ..)
  constructor
  case setFaction =>
    exact fun key faction? => .of_provided (Editing.run_setFaction ..) (hupdate key _)
  case setNebula =>
    exact fun key nebula => .of_provided (Editing.run_setNebula ..) (hupdate key _)
  case addPlanet =>
    exact fun system planet => .of_provided (Editing.run_addPlanet ..) (addPlanet_eq ..)
  case addJump =>
    exact fun origin jump => .of_provided (Editing.run_addJump hg ..)
      ((congrArg _ (addJump_eq ..)).trans (map_provided ..))
  case connect =>
    exact fun a b => .of_provided (Editing.run_connect hg ..)
      ((congrArg _ (connect_eq ..)).trans (map_provided ..))
  case connect_both =>
    intro a b
    have hassigns := Wiring.assigns_edit g (.connect a b)
    rw [show g.after (.connect a b) = g.edit (Wiring.connect a b).edit from
      hg.editInPlace_eq (.connect a b)]
    -- Either no jump was added or both were, since one look at the two systems decides.
    cases hmissing : g.missing? [b, a] with
    | some key =>
      left
      rw [Wiring.edit_eq, Wiring.needs, provided_of_missing? hmissing]
      rfl
    | none =>
      right
      rw [Wiring.needs, hmissing] at hassigns
      exact hassigns

/-- **Failed edits change nothing**, in whatever galaxy some edits have made: those that may be
refused are refused exactly if a system is missing that they name. -/
theorem editsWhole_ofEditing (edits : List (Edit α)) : (ofEditing edits).EditsWhole := by
  rw [ofEditing_eq]
  exact (isCharted_ofEdits edits).editsWhole

end Galaxy

end GalaxyMarket
