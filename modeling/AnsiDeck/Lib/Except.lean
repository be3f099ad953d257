import Mathlib.Data.List.Forall2

/-!
# Computations that may raise

A computation in `Except` returns when each of its steps does; `mapM` over a list when each element
does, with one result an element.
-/

namespace Lib

universe u v w

variable {ε : Type u} {α β : Type v}

theorem Except.bind_eq_ok {x : Except ε α} {f : α → Except ε β} {b : β} :
    x >>= f = .ok b ↔ ∃ a, x = .ok a ∧ f a = .ok b := by
  cases x with
  | error e => simp [bind, Except.bind]
  | ok a => simp [bind, Except.bind]

theorem Except.bind_eq_error {x : Except ε α} {f : α → Except ε β} {e : ε} :
    x >>= f = .error e ↔ x = .error e ∨ ∃ a, x = .ok a ∧ f a = .error e := by
  cases x with
  | error e => simp [bind, Except.bind]
  | ok a => simp [bind, Except.bind]

theorem Except.pure_eq_ok {a b : α} : (pure a : Except ε α) = .ok b ↔ a = b := by
  simp [pure, Except.pure]

theorem Except.mapM_eq_ok {γ : Type w} {f : γ → Except ε β} {l : List γ} {l' : List β} :
    l.mapM f = .ok l' ↔ List.Forall₂ (fun a b => f a = .ok b) l l' := by
  induction l generalizing l' with
  | nil => rw [List.mapM_nil, Except.pure_eq_ok, List.forall₂_nil_left_iff, eq_comm]
  | cons a l ih =>
    rw [List.mapM_cons, Except.bind_eq_ok]
    constructor
    · rintro ⟨b, hb, h⟩
      obtain ⟨rest, hrest, h⟩ := Except.bind_eq_ok.1 h
      obtain rfl := Except.pure_eq_ok.1 h
      exact .cons hb (ih.1 hrest)
    · intro h
      cases h with
      | cons hb hrest => exact ⟨_, hb, Except.bind_eq_ok.2 ⟨_, ih.2 hrest, rfl⟩⟩

/-- The results are those of the elements. -/
theorem Except.mem_mapM {γ : Type w} {f : γ → Except ε β} {l : List γ} {l' : List β}
    (h : l.mapM f = .ok l') {b : β} : b ∈ l' ↔ ∃ a ∈ l, f a = .ok b := by
  have hall := Except.mapM_eq_ok.1 h
  clear h
  induction hall with
  | nil => simp
  | cons hb _ ih =>
    rw [List.mem_cons]
    constructor
    · rintro (rfl | hmem)
      · exact ⟨_, List.mem_cons_self .., hb⟩
      · obtain ⟨a, ha, hf⟩ := ih.1 hmem
        exact ⟨a, List.mem_cons_of_mem _ ha, hf⟩
    · rintro ⟨a, ha, hf⟩
      rcases List.mem_cons.1 ha with rfl | ha
      · exact .inl (Except.ok.inj (hf.symm.trans hb))
      · exact .inr (ih.2 ⟨a, ha, hf⟩)

theorem Except.returns_of_mapM {γ : Type w} {f : γ → Except ε β} {l : List γ} {l' : List β}
    (h : l.mapM f = .ok l') {a : γ} (ha : a ∈ l) : ∃ b, f a = .ok b := by
  have hall := Except.mapM_eq_ok.1 h
  clear h
  induction hall with
  | nil => exact absurd ha (by simp)
  | cons hb _ ih =>
    rcases List.mem_cons.1 ha with rfl | ha
    · exact ⟨_, hb⟩
    · exact ih ha

theorem Except.mapM_raises {γ : Type w} {f : γ → Except ε β} {l : List γ} {e : ε}
    (h : l.mapM f = .error e) : ∃ a ∈ l, f a = .error e := by
  induction l with
  | nil => cases h
  | cons a l ih =>
    rw [List.mapM_cons] at h
    obtain ha | ⟨b, -, h⟩ := Except.bind_eq_error.1 h
    · exact ⟨a, List.mem_cons_self, ha⟩
    obtain hrest | ⟨bs, -, h⟩ := Except.bind_eq_error.1 h
    · obtain ⟨a', hmem, hraise⟩ := ih hrest
      exact ⟨a', List.mem_cons_of_mem _ hmem, hraise⟩
    · cases h

/-- Each element returns, so all of them do. -/
theorem Except.mapM_returns {γ : Type w} {f : γ → Except ε β} {l : List γ}
    (h : ∀ a ∈ l, ∃ b, f a = .ok b) : ∃ l', l.mapM f = .ok l' := by
  induction l with
  | nil => exact ⟨[], rfl⟩
  | cons a l ih =>
    obtain ⟨b, hb⟩ := h a (by simp)
    obtain ⟨rest, hrest⟩ := ih fun x hx => h x (List.mem_cons_of_mem a hx)
    exact ⟨b :: rest, Except.mapM_eq_ok.2 (.cons hb (Except.mapM_eq_ok.1 hrest))⟩

/-- A loop that returns: `I` says what holds once it has done part of the list. -/
theorem Except.foldlM_rule {γ : Type w} {f : α → γ → Except ε α} {l : List γ} {a b : α}
    (I : List γ → α → Prop) (start : I [] a)
    (step : ∀ front c back a a', l = front ++ c :: back → I front a → f a c = .ok a' →
      I (front ++ [c]) a')
    (h : l.foldlM f a = .ok b) : I l b := by
  suffices hback : ∀ back front a, l = front ++ back → I front a →
      back.foldlM f a = .ok b → I l b from
    hback l [] a rfl start h
  intro back
  induction back with
  | nil =>
    intro front a hl hI h
    obtain rfl := Except.pure_eq_ok.1 h
    rwa [hl, List.append_nil]
  | cons c back ih =>
    intro front a hl hI h
    rw [List.foldlM_cons] at h
    obtain ⟨a', ha', h⟩ := Except.bind_eq_ok.1 h
    exact ih (front ++ [c]) a' (by rw [hl, List.append_assoc, List.singleton_append])
      (step front c back a a' hl hI ha') h

/-- A loop whose every step returns where `I` holds of what is done. -/
theorem Except.foldlM_returns {γ : Type w} {f : α → γ → Except ε α} {l : List γ} {a : α}
    (I : List γ → α → Prop) (start : I [] a)
    (step : ∀ front c back a, l = front ++ c :: back → I front a →
      ∃ a', f a c = .ok a' ∧ I (front ++ [c]) a') :
    ∃ b, l.foldlM f a = .ok b ∧ I l b := by
  suffices hback : ∀ back front a, l = front ++ back → I front a →
      ∃ b, back.foldlM f a = .ok b ∧ I l b from hback l [] a rfl start
  intro back
  induction back with
  | nil =>
    intro front a hl hI
    rw [List.append_nil] at hl
    exact ⟨a, rfl, hl ▸ hI⟩
  | cons c back ih =>
    intro front a hl hI
    obtain ⟨a', ha', hI'⟩ := step front c back a hl hI
    obtain ⟨b, hb, hIb⟩ :=
      ih (front ++ [c]) a' (by rw [hl, List.append_assoc, List.singleton_append])
      hI'
    refine ⟨b, ?_, hIb⟩
    rw [List.foldlM_cons, ha']
    exact hb

/-- A loop that raises does so in one of its steps. -/
theorem Except.foldlM_raises {γ : Type w} {f : α → γ → Except ε α} {l : List γ} {a : α} {e : ε}
    (h : l.foldlM f a = .error e) : ∃ c ∈ l, ∃ a, f a c = .error e := by
  induction l generalizing a with
  | nil => cases h
  | cons c l ih =>
    rw [List.foldlM_cons] at h
    cases hc : f a c with
    | error e' =>
      rw [hc] at h
      cases h
      exact ⟨c, List.mem_cons_self, a, hc⟩
    | ok a' =>
      rw [hc] at h
      obtain ⟨c', hmem, hraise⟩ := ih h
      exact ⟨c', List.mem_cons_of_mem _ hmem, hraise⟩

end Lib
