import Mathlib.Data.List.Forall2
import Mathlib.Data.List.Induction

/-!
# What a check decides

A galaxy is loaded in many steps, each of which may refuse its records. `Decides good P E` says all
there is to say about such a step: it succeeds exactly if `good` holds, then `P` holds of the
result, and otherwise `E` holds of the error.

Steps are put together as their results are: one after the other (`Decides.bind`), for each item of
a list (`Decides.mapM`), and as the turns of a loop (`Decides.foldlM`), where the condition and the
invariant speak about the items that the loop has gone through.
-/

namespace GalaxyMarket

variable {ε α β σ : Type} {good good' : Prop} {E : ε → Prop}

/-- **What a check decides**: it succeeds exactly if `good` holds, with a result of which `P` holds,
and otherwise it fails with an error of which `E` holds. -/
def Decides (good : Prop) (P : β → Prop) (E : ε → Prop) : Except ε β → Prop
  | .ok b => good ∧ P b
  | .error e => ¬good ∧ E e

/-- Two steps succeed if the first one does and then the second one. -/
theorem bind_eq_ok_iff {r : Except ε α} {f : α → Except ε β} {b : β} :
    r >>= f = .ok b ↔ ∃ a, r = .ok a ∧ f a = .ok b := by
  cases r with
  | ok a =>
    constructor
    · exact fun h => ⟨a, rfl, h⟩
    · rintro ⟨a', ha', h⟩
      cases ha'
      exact h
  | error e =>
    constructor
    · intro h
      cases h
    · rintro ⟨a', ha', -⟩
      cases ha'

/-- An error of two steps comes from the first one, or from the second one after the first. -/
theorem bind_eq_error_iff {r : Except ε α} {f : α → Except ε β} {e : ε} :
    r >>= f = .error e ↔ r = .error e ∨ ∃ a, r = .ok a ∧ f a = .error e := by
  cases r with
  | ok a =>
    constructor
    · exact fun h => Or.inr ⟨a, rfl, h⟩
    · rintro (h | ⟨a', ha', h⟩)
      · cases h
      · cases ha'
        exact h
  | error e' =>
    constructor
    · intro h
      cases h
      exact Or.inl rfl
    · rintro (h | ⟨a', ha', -⟩)
      · cases h
        rfl
      · cases ha'

namespace Decides

variable {P P' : β → Prop} {r : Except ε β}

/-! ### Reading a decision -/

/-- A success says that the condition holds, and what the result is like; -/
theorem of_ok (h : Decides good P E r) {b : β} (hr : r = .ok b) : good ∧ P b := by
  rw [hr] at h
  exact h

/-- a failure says that it does not, and what the error is like. -/
theorem of_error (h : Decides good P E r) {e : ε} (hr : r = .error e) : ¬good ∧ E e := by
  rw [hr] at h
  exact h

/-- So a step succeeds exactly under its condition. -/
theorem exists_eq_ok_iff (h : Decides good P E r) : (∃ b, r = .ok b) ↔ good := by
  constructor
  · rintro ⟨b, hb⟩
    exact (h.of_ok hb).1
  · intro hgood
    cases hr : r with
    | ok b => exact ⟨b, rfl⟩
    | error e => exact absurd hgood (h.of_error hr).1

/-! ### Single steps -/

/-- What cannot fail has no condition. -/
theorem ok {b : β} (hP : P b) : Decides (ε := ε) True P E (.ok b) := ⟨trivial, hP⟩

/-- A condition is put in other words, and less is said of the result. -/
theorem congr (h : Decides good P E r) (hgood : good ↔ good') (hP : ∀ b, good → P b → P' b) :
    Decides good' P' E r := by
  cases hr : r with
  | ok b =>
    obtain ⟨hholds, hb⟩ := h.of_ok hr
    exact ⟨hgood.mp hholds, hP b hholds hb⟩
  | error e =>
    obtain ⟨hfails, he⟩ := h.of_error hr
    exact ⟨fun hholds => hfails (hgood.mpr hholds), he⟩

/-! ### Steps after another -/

variable {γ : Type} {Q : γ → Prop}

/-- **One step after another** succeeds if both do. -/
theorem bind (h : Decides good P E r) {f : β → Except ε γ}
    (hf : ∀ b, good → P b → Decides good' Q E (f b)) : Decides (good ∧ good') Q E (r >>= f) := by
  cases hr : r with
  | ok b =>
    obtain ⟨hgood, hb⟩ := h.of_ok hr
    exact (hf b hgood hb).congr (and_iff_right hgood).symm fun _ _ hQ => hQ
  | error e =>
    obtain ⟨hfails, he⟩ := h.of_error hr
    exact ⟨fun hgood => hfails hgood.1, he⟩

/-- Behind a step there may be another one that cannot fail. -/
theorem bind_ok (h : Decides good P E r) {f : β → Except ε γ}
    (hf : ∀ b, good → P b → ∃ c, f b = .ok c ∧ Q c) : Decides good Q E (r >>= f) := by
  refine (h.bind fun b hgood hb => ?_).congr (and_iff_left trivial) fun _ _ hQ => hQ
  obtain ⟨c, hc, hQ⟩ := hf b hgood hb
  rw [hc]
  exact ok hQ

/-- Where a step has no condition but that it succeeds, the condition of the next one speaks about
its result. -/
theorem bind_exists {good : β → Prop} (hr : ∀ e, r = .error e → E e) {f : β → Except ε γ}
    (hf : ∀ b, r = .ok b → Decides (good b) Q E (f b)) :
    Decides (∃ b, r = .ok b ∧ good b) Q E (r >>= f) := by
  cases h : r with
  | ok b =>
    refine (hf b h).congr ?_ fun _ _ hQ => hQ
    constructor
    · exact fun hgood => ⟨b, rfl, hgood⟩
    · rintro ⟨b', hb', hgood⟩
      exact Except.ok.inj hb' ▸ hgood
  | error e =>
    refine ⟨?_, hr e h⟩
    rintro ⟨b, hb, -⟩
    cases hb

/-- **A check for each item** of a list. -/
theorem mapM {good : α → Prop} {P : α → β → Prop} {f : α → Except ε β} {l : List α}
    (h : ∀ a ∈ l, Decides (good a) (P a) E (f a)) :
    Decides (∀ a ∈ l, good a) (List.Forall₂ P l) E (l.mapM f) := by
  -- The first item is checked first, and the others only if it passes.
  induction l with
  | nil => exact ⟨List.forall_mem_nil good, List.Forall₂.nil⟩
  | cons a l ih =>
    obtain ⟨hfirst, hrest⟩ := List.forall_mem_cons.mp h
    rw [List.mapM_cons, List.forall_mem_cons]
    refine hfirst.bind fun b _ hb => (ih hrest).bind_ok fun bs _ hbs => ?_
    exact ⟨b :: bs, rfl, List.Forall₂.cons hb hbs⟩

/-- A check for what may be absent. -/
theorem optionMapM {good : α → Prop} {P : α → β → Prop} {f : α → Except ε β} {a? : Option α}
    (h : ∀ a ∈ a?, Decides (good a) (P a) E (f a)) :
    Decides (∀ a ∈ a?, good a) (Option.Rel P a?) E (a?.mapM f) := by
  cases a? with
  | none => exact ⟨by simp, Option.Rel.none⟩
  | some a =>
    have hsome : Decides (good a) (Option.Rel P (some a)) E (some <$> f a) :=
      (h a rfl).bind_ok fun b _ hb => ⟨some b, rfl, Option.Rel.some hb⟩
    exact hsome.congr (by simp) fun _ _ hP => hP

/-- **A loop that checks each item** as it comes. `good front` says that the items up to here are in
order, and `R front` is what the loop keeps. -/
theorem foldlM (good : List α → Prop) (R : List α → σ → Prop) {f : σ → α → Except ε σ} {s : σ}
    {l : List α} (hstart : good [] ∧ R [] s) (hmono : ∀ front a, good (front ++ [a]) → good front)
    (hstep : ∀ front a back s, l = front ++ a :: back → good front → R front s →
      Decides (good (front ++ [a])) (R (front ++ [a])) E (f s a)) :
    Decides (good l) (R l) E (l.foldlM f s) := by
  suffices hfront : ∀ front back, l = front ++ back →
      Decides (good front) (R front) E (front.foldlM f s) from
    hfront l [] (List.append_nil l).symm
  intro front
  -- The loop goes from the front, so it is its last turn that is taken off.
  induction front using List.reverseRecOn with
  | nil =>
    intro back _
    exact hstart
  | append_singleton front a ih =>
    intro back hl
    rw [List.append_assoc, List.singleton_append] at hl
    rw [List.foldlM_append]
    rw [← and_iff_right_of_imp (hmono front a)]
    apply (ih (a :: back) hl).bind
    intro s' hgood hs'
    rw [List.foldlM_cons]
    exact (hstep front a back s' hl hgood hs').bind_ok fun s'' _ hs'' => ⟨s'', rfl, hs''⟩

end Decides

end GalaxyMarket
