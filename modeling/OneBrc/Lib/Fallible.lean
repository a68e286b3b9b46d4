import Mathlib.Data.List.Basic

/-! Inversion of computations that may fail. -/
namespace OneBrc.Lib.Fallible
universe u v w
variable {ε : Type u}

theorem bind_eq_ok {α β : Type v} {x : Except ε α} {f : α → Except ε β} {b : β} :
    x >>= f = .ok b ↔ ∃ a, x = .ok a ∧ f a = .ok b := by
  cases x with
  | error e => simp [bind, Except.bind]
  | ok a => simp [bind, Except.bind]

/-- A computation succeeds when its parts do. -/
theorem exists_bind_eq_ok {α β : Type v} {x : Except ε α} {f : α → Except ε β} :
    (∃ b, x >>= f = .ok b) ↔ ∃ a, x = .ok a ∧ ∃ b, f a = .ok b := by
  simp only [bind_eq_ok]
  constructor
  · rintro ⟨b, a, ha, hb⟩
    exact ⟨a, ha, b, hb⟩
  · rintro ⟨a, ha, b, hb⟩
    exact ⟨b, a, ha, hb⟩

/-- A loop over mapped inputs whose every pass gives the mapped output. -/
theorem mapM_map {α β γ δ : Type v} {f : α → Except ε β} {f' : γ → Except ε δ} {g : α → γ}
    {h : β → δ} (hfg : ∀ a, f' (g a) = (f a).map h) (l : List α) :
    (l.map g).mapM f' = (l.mapM f).map (List.map h) := by
  induction l with
  | nil => rfl
  | cons a l ih =>
    rw [List.map_cons, List.mapM_cons, List.mapM_cons, hfg, ih]
    cases f a with
    | error e => rfl
    | ok b =>
      cases l.mapM f with
      | error e => rfl
      | ok bs => rfl

/-- A loop in which every pass succeeds. -/
theorem mapM_ok {α β : Type v} {f : α → Except ε β} {g : α → β} {l : List α}
    (hfg : ∀ a ∈ l, f a = .ok (g a)) : l.mapM f = .ok (l.map g) := by
  induction l with
  | nil => rfl
  | cons a l ih =>
    rw [List.mapM_cons, hfg a List.mem_cons_self, ih fun b hb => hfg b (List.mem_cons_of_mem _ hb)]
    rfl

/-- Loops whose passes are the same. -/
theorem mapM_congr {m : Type v → Type w} [Monad m] [LawfulMonad m] {α : Type u} {β : Type v}
    {f g : α → m β} {l : List α} (h : ∀ a ∈ l, f a = g a) : l.mapM f = l.mapM g := by
  induction l with
  | nil => rfl
  | cons a l ih =>
    rw [List.mapM_cons, List.mapM_cons, h a List.mem_cons_self,
      ih fun b hb => h b (List.mem_cons_of_mem _ hb)]

/-- A loop whose passes give values. -/
theorem mapM_eq_pure {m : Type v → Type w} [Monad m] [LawfulMonad m] {α : Type u} {β : Type v}
    {f : α → m β} {g : α → β} {l : List α} (h : ∀ a ∈ l, f a = pure (g a)) :
    l.mapM f = pure (l.map g) := (mapM_congr h).trans List.mapM_pure

/-- A loop whose passes succeed where those of another one do. -/
theorem mapM_of_mapM {α : Type u} {β : Type v} {f g : α → Option β} {l : List α} {bs : List β}
    (h : ∀ a ∈ l, ∀ b, f a = some b → g a = some b) (hl : l.mapM f = some bs) :
    l.mapM g = some bs := by
  induction l generalizing bs with
  | nil => exact hl
  | cons a l ih =>
    obtain ⟨ha, htail⟩ := List.forall_mem_cons.mp h
    rw [List.mapM_cons] at hl ⊢
    obtain ⟨b, hb, hl⟩ := Option.bind_eq_some_iff.mp hl
    obtain ⟨bs', hbs', hl⟩ := Option.bind_eq_some_iff.mp hl
    rw [ha b hb, ih htail hbs']
    exact hl

/-- A loop one of whose passes fails. -/
theorem mapM_eq_none {α : Type u} {β : Type v} {f : α → Option β} {l : List α} {a : α} (ha : a ∈ l)
    (h : f a = none) : l.mapM f = none := by
  induction l with
  | nil => cases ha
  | cons b l ih =>
    rw [List.mapM_cons]
    rcases List.mem_cons.mp ha with rfl | ha
    · rw [h]
      rfl
    · rw [ih ha]
      cases f b with
      | none => rfl
      | some c => rfl

/-- Loop rule: what every successful pass preserves holds at the end. -/
theorem foldlM_invariant {α : Type w} {β : Type v} {I : β → Prop} {f : β → α → Except ε β}
    {xs : List α} {b c : β}
    (hstep : ∀ {b x c}, x ∈ xs → I b → f b x = .ok c → I c) (hb : I b)
    (h : xs.foldlM f b = .ok c) : I c := by
  induction xs generalizing b with
  | nil =>
    obtain rfl := Except.ok.inj h
    exact hb
  | cons x xs ih =>
    rw [List.foldlM_cons] at h
    obtain ⟨d, hd, hrest⟩ := bind_eq_ok.mp h
    exact ih (fun hx => hstep (List.mem_cons_of_mem _ hx)) (hstep List.mem_cons_self hb hd) hrest

/-- A loop that succeeds has made every pass. -/
theorem foldlM_pass {α : Type w} {β : Type v} {f : β → α → Except ε β} {xs : List α} {b c : β}
    (h : xs.foldlM f b = .ok c) : ∀ x ∈ xs, ∃ d e, f d x = .ok e := by
  induction xs generalizing b with
  | nil => simp
  | cons x xs ih =>
    rw [List.foldlM_cons] at h
    obtain ⟨d, hd, hrest⟩ := bind_eq_ok.mp h
    exact List.forall_mem_cons.mpr ⟨⟨b, d, hd⟩, ih hrest⟩

end OneBrc.Lib.Fallible
