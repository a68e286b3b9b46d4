import Mathlib.Data.List.Basic

/-! Transition systems with guarded runs: reachable states and the invariant rules. -/
namespace OneBrc.Lib

/-- Steps are chosen by an action; `none` means that the action is disabled. -/
structure TransitionSystem (σ α : Type*) where
  init : σ
  step : σ → α → Option σ

namespace TransitionSystem
variable {σ α : Type*} (T : TransitionSystem σ α)

/-- The condition on steps that every step meets. -/
def Free : σ → α → Prop := fun _ _ => True

instance : DecidableRel (Free : σ → α → Prop) := fun _ _ => inferInstanceAs (Decidable True)

/-- `Path T G s t`: `t` is reached from `s` by finitely many steps that all meet `G`. -/
inductive Path (G : σ → α → Prop) (s : σ) : σ → Prop
  | refl : Path G s s
  | snoc {t u : σ} (a : α) : Path G s t → G t a → T.step t a = some u → Path G s u

/-- Reached from the initial state by steps that all meet `G`. -/
def Reachable (G : σ → α → Prop) : σ → Prop := T.Path G T.init

variable {T} {G H : σ → α → Prop} {s t u : σ}

theorem Path.trans (h : T.Path G s t) (h' : T.Path G t u) : T.Path G s u := by
  induction h' with
  | refl => exact h
  | snoc a _ hg hs ih => exact ih.snoc a hg hs

theorem Path.mono (hGH : ∀ s a, G s a → H s a) (h : T.Path G s t) : T.Path H s t := by
  induction h with
  | refl => exact .refl
  | snoc a _ hg hs ih => exact ih.snoc a (hGH _ _ hg) hs

/-- Invariant rule: what every admitted step preserves holds along the whole path. -/
theorem Path.invariant {I : σ → Prop}
    (hstep : ∀ {s a t}, I s → G s a → T.step s a = some t → I t)
    (h : T.Path G s t) (hs : I s) : I t := by
  induction h with
  | refl => exact hs
  | snoc a _ hg ht ih => exact hstep ih hg ht

/-- Relational rule: a reflexive relation that every admitted step extends relates both ends. -/
theorem Path.relates {R : σ → σ → Prop} (hrefl : R s s)
    (hstep : ∀ {t a u}, T.Path G s t → R s t → G t a → T.step t a = some u → R s u)
    (h : T.Path G s t) : R s t := by
  induction h with
  | refl => exact hrefl
  | snoc a hp hg ht ih => exact hstep hp ih hg ht

theorem Reachable.snoc {a : α} (h : T.Reachable G s) (hg : G s a) (hs : T.step s a = some t) :
    T.Reachable G t := Path.snoc a h hg hs

theorem Reachable.path (h : T.Reachable G s) (h' : T.Path G s t) : T.Reachable G t :=
  Path.trans h h'

theorem Reachable.mono (hGH : ∀ s a, G s a → H s a) (h : T.Reachable G s) : T.Reachable H s :=
  Path.mono hGH h

theorem Reachable.free (h : T.Reachable G s) : T.Reachable Free s :=
  h.mono fun _ _ _ => trivial

theorem Reachable.invariant {I : σ → Prop} (hinit : I T.init)
    (hstep : ∀ {s a t}, I s → G s a → T.step s a = some t → I t)
    (h : T.Reachable G s) : I s :=
  Path.invariant hstep h hinit

/-- Invariant rule in which a step may use that the state before it is reachable. -/
theorem Reachable.invariant_of_reachable {I : σ → Prop} (hinit : I T.init)
    (hstep : ∀ {s a t}, T.Reachable G s → I s → G s a → T.step s a = some t → I t)
    (h : T.Reachable G s) : I s := by
  have hh : T.Reachable G s ∧ I s :=
    Path.invariant (I := fun s => T.Reachable G s ∧ I s)
      (fun ⟨hr, hi⟩ hg hs => ⟨hr.snoc hg hs, hstep hr hi hg hs⟩) h ⟨.refl, hinit⟩
  exact hh.2

/-- Run a list of actions; a disabled action or one that breaks the condition ends in `none`. -/
def run (T : TransitionSystem σ α) (G : σ → α → Prop) [DecidableRel G] : σ → List α → Option σ
  | s, [] => some s
  | s, a :: as => if G s a then (T.step s a).bind (T.run G · as) else none

theorem path_of_run [DecidableRel G] {as : List α} (h : T.run G s as = some t) :
    T.Path G s t := by
  induction as generalizing s with
  | nil =>
    obtain rfl : s = t := by simpa [run] using h
    exact .refl
  | cons a as ih =>
    simp only [run] at h
    split at h
    · next hg =>
      obtain ⟨u, hu, hrest⟩ := Option.bind_eq_some_iff.mp h
      exact (Path.snoc a .refl hg hu).trans (ih hrest)
    · contradiction

/-- A run whose last state passes a check yields a path to a state that passes it. -/
theorem exists_path_of_run [DecidableRel G] {as : List α} {check : σ → Bool}
    (h : (T.run G s as).any check = true) : ∃ t, T.Path G s t ∧ check t = true := by
  obtain ⟨t, ht, hc⟩ := (Option.any_eq_true ..).mp h
  exact ⟨t, path_of_run ht, hc⟩

end TransitionSystem
end OneBrc.Lib
