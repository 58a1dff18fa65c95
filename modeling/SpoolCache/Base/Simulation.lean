import SpoolCache.Base.Cleanup

/-!
# Programs that follow a model

Library `Base`. A model is a function on states of its own that succeeds or raises. A program
follows it when, undisturbed and from a state related to one of the model, it ends as the model
does and in a related state. Programs in sequence follow models in sequence, and a run of
operations that each follow their models follows the run of the models.
-/

namespace SpoolCache.Base.Program

universe u v w x

variable {ε : Type u} {σ : Type w} {α β : Type v}

/-! ### Programs that return or raise -/

/-- Without faults the program ends, from `P`: it returns with `X`, or it raises with `E`. -/
def Settles (P : σ → Prop) (x : Program ε σ α) (X : α → σ → Prop) (E : ε → σ → Prop) : Prop :=
  ∀ s, P s → (∃ a s', x ⟨[], s⟩ = (.returned a, ⟨[], s'⟩) ∧ X a s') ∨
    ∃ e s', x ⟨[], s⟩ = (.raised e, ⟨[], s'⟩) ∧ E e s'

section

variable {P : σ → Prop} {X : α → σ → Prop} {E : ε → σ → Prop}

/-- A program that returns settles, whatever is said of errors. -/
theorem Returns.settles {x : Program ε σ α} (h : Returns P x X) : Settles P x X E :=
  fun s hs ↦ .inl (h s hs)

/-- A program that settles without an error returns. -/
theorem Settles.returns {x : Program ε σ α} (h : Settles P x X fun _ _ ↦ False) : Returns P x X :=
  fun s hs ↦ (h s hs).elim id fun ⟨_, _, _, hfalse⟩ ↦ hfalse.elim

/-- A program that only returns settles. -/
theorem settles_pure {a : α} (h : ∀ s, P s → X a s) : Settles P (pure a : Program ε σ α) X E :=
  fun s hs ↦ .inl ⟨a, s, rfl, h s hs⟩

/-- A program that only raises settles. -/
theorem settles_raise {e : ε} (h : ∀ s, P s → E e s) : Settles P (raise e : Program ε σ α) X E :=
  fun s hs ↦ .inr ⟨e, s, rfl, h s hs⟩

/-- A call settles as its effect says. -/
theorem settles_call {onFail : ε} {f : σ → Except ε α × σ}
    (h : ∀ s, P s → (∀ a, (f s).1 = .ok a → X a (f s).2) ∧ ∀ e, (f s).1 = .error e → E e (f s).2) :
    Settles P (call onFail f) X E := by
  intro s hs
  obtain ⟨hok, herr⟩ := h s hs
  unfold call
  dsimp only
  generalize f s = out at hok herr
  obtain ⟨result, s'⟩ := out
  cases result with
  | ok a => exact .inl ⟨a, s', rfl, hok a rfl⟩
  | error e => exact .inr ⟨e, s', rfl, herr e rfl⟩

/-- The rule of consequence. -/
theorem Settles.mono {P' : σ → Prop} {x : Program ε σ α} {X' : α → σ → Prop} {E' : ε → σ → Prop}
    (h : Settles P x X E) (hP : ∀ s, P' s → P s) (hX : ∀ a s, X a s → X' a s)
    (hE : ∀ e s, E e s → E' e s) : Settles P' x X' E' := fun s hs ↦
  (h s (hP s hs)).imp (fun ⟨a, s', heq, ha⟩ ↦ ⟨a, s', heq, hX a s' ha⟩)
    fun ⟨e, s', heq, he⟩ ↦ ⟨e, s', heq, hE e s' he⟩

/-- Two programs in a row, with the errors of both. -/
theorem Settles.bind {x : Program ε σ α} {f : α → Program ε σ β} {Y : β → σ → Prop}
    (hx : Settles P x X E) (hf : ∀ a, Settles (X a) (f a) Y E) : Settles P (x >>= f) Y E := by
  intro s hs
  rcases hx s hs with ⟨a, s', heq, ha⟩ | ⟨e, s', heq, he⟩
  · rw [bind_of_returned heq]
    exact hf a s' ha
  · exact .inr ⟨e, s', bind_of_raised heq f, he⟩

/-- What was raised goes on in the handler. -/
theorem Settles.handle {x : Program ε σ α} {handler : ε → Program ε σ α} {E' : ε → σ → Prop}
    (hx : Settles P x X E') (hh : ∀ e, Settles (E' e) (handler e) X E) :
    Settles P (Program.handle x handler) X E := by
  intro s hs
  unfold Program.handle
  rcases hx s hs with ⟨a, s', heq, ha⟩ | ⟨e, s', heq, he⟩
  · exact .inl ⟨a, s', by rw [heq], ha⟩
  · rw [heq]
    exact hh e s' he

/-- The clean-up runs from where its program ended. -/
theorem Settles.always {x : Program ε σ α} {cleanup : Program ε σ PUnit} (hx : Settles P x X E)
    (hX : ∀ a, Returns (X a) cleanup fun _ ↦ X a) (hE : ∀ e, Returns (E e) cleanup fun _ ↦ E e) :
    Settles P (Program.always x cleanup) X E := by
  intro s hs
  unfold Program.always andThen
  rcases hx s hs with ⟨a, s', heq, ha⟩ | ⟨e, s', heq, he⟩
  · obtain ⟨u, s'', hclean, ha'⟩ := hX a s' ha
    refine .inl ⟨a, s'', ?_, ha'⟩
    rw [heq]
    dsimp only
    rw [hclean]
    rfl
  · obtain ⟨u, s'', hclean, he'⟩ := hE e s' he
    refine .inr ⟨e, s'', ?_, he'⟩
    rw [heq]
    dsimp only
    rw [hclean]
    rfl

/-- An attempt at a program that returns finds no error. -/
theorem Returns.attempted {x : Program ε σ PUnit} {Y : σ → Prop} (hx : Returns P x fun _ ↦ Y) :
    Returns P (Program.attempt x) fun e s ↦ e = none ∧ Y s := by
  refine returns_attempt fun s hs ↦ ?_
  obtain ⟨a, s', heq, hy⟩ := hx s hs
  exact ⟨s', .inl ⟨heq, rfl, hy⟩⟩

/-- An attempt at a program that is refused finds its error. -/
theorem Refuses.attempted {x : Program ε σ PUnit} {e : ε} {Y : σ → Prop}
    (hx : Refuses P x fun e' s ↦ e' = e ∧ Y s) :
    Returns P (Program.attempt x) fun r s ↦ r = some e ∧ Y s := by
  refine returns_attempt fun s hs ↦ ?_
  obtain ⟨e', s', heq, rfl, hy⟩ := hx s hs
  exact ⟨s', .inr ⟨e', heq, rfl, hy⟩⟩

end

/-! ### Models -/

variable {τ : Type x} {ε' : Type u} {α' β' : Type v}

/-- A model of a program, on states of its own. -/
abbrev Model (τ : Type x) (ε' : Type u) (α' : Type v) := τ → τ × Except ε' α'

namespace Model

/-- One model after the other; an error ends both. -/
def andThen (f : Model τ ε' α') (g : α' → Model τ ε' β') : Model τ ε' β' := fun t ↦
  match f t with
  | (t, .ok b) => g b t
  | (t, .error e) => (t, .error e)

/-- A model that goes on from an error. -/
def orElse (f : Model τ ε' α') (g : ε' → Model τ ε' α') : Model τ ε' α' := fun t ↦
  match f t with
  | (t, .ok b) => (t, .ok b)
  | (t, .error e) => g e t

end Model

/-- Undisturbed and from a state related to `t`, the program ends as the model does from `t`, and in
a related state. Values and errors are compared by `A` and `B`. -/
def Follows (R : σ → τ → Prop) (A : α → α' → Prop) (B : ε → ε' → Prop) (x : Program ε σ α)
    (f : Model τ ε' α') : Prop :=
  ∀ t, Settles (fun s ↦ R s t) x (fun a s ↦ ∃ b, (f t).2 = .ok b ∧ A a b ∧ R s (f t).1)
    fun e s ↦ ∃ e', (f t).2 = .error e' ∧ B e e' ∧ R s (f t).1

section

variable {R : σ → τ → Prop} {A : α → α' → Prop} {B : ε → ε' → Prop}

/-- A program that only returns follows a model that only answers. -/
theorem follows_pure {a : α} {b : α'} (h : A a b) :
    Follows R A B (pure a : Program ε σ α) fun t ↦ (t, .ok b) :=
  fun _ ↦ settles_pure fun _ hs ↦ ⟨b, rfl, h, hs⟩

/-- A program that only raises follows a model that only fails. -/
theorem follows_raise {e : ε} {e' : ε'} (h : B e e') :
    Follows R A B (raise e : Program ε σ α) fun t ↦ (t, .error e') :=
  fun _ ↦ settles_raise fun _ hs ↦ ⟨e', rfl, h, hs⟩

/-- A program that always returns follows a model that does. -/
theorem follows_of_returns {x : Program ε σ α} {f : τ → τ} {b : τ → α'}
    (h : ∀ t, Returns (fun s ↦ R s t) x fun a s ↦ A a (b t) ∧ R s (f t)) :
    Follows R A B x fun t ↦ (f t, .ok (b t)) :=
  fun t ↦ ((h t).mono fun _ _ ⟨ha, hs⟩ ↦ ⟨b t, rfl, ha, hs⟩).settles

/-- The rule of sequence. -/
theorem Follows.bind {x : Program ε σ α} {f : Model τ ε' α'} {k : α → Program ε σ β}
    {g : α' → Model τ ε' β'} {A' : β → β' → Prop} (hx : Follows R A B x f)
    (hk : ∀ a b, A a b → Follows R A' B (k a) (g b)) :
    Follows R A' B (x >>= k) (f.andThen g) := by
  intro t s hs
  unfold Model.andThen
  rcases hx t s hs with ⟨a, s', heq, b, hb, hab, hs'⟩ | ⟨e, s', heq, e', he', hee, hs'⟩
  · rw [bind_of_returned heq]
    generalize f t = out at hb hs' ⊢
    obtain ⟨t', result⟩ := out
    cases hb
    exact hk a b hab t' s' hs'
  · refine .inr ⟨e, s', bind_of_raised heq k, ?_⟩
    generalize f t = out at he' hs' ⊢
    obtain ⟨t', result⟩ := out
    cases he'
    exact ⟨e', rfl, hee, hs'⟩

/-- The rule of handlers. -/
theorem Follows.handle {x : Program ε σ α} {f : Model τ ε' α'} {handler : ε → Program ε σ α}
    {g : ε' → Model τ ε' α'} {B' : ε → ε' → Prop} (hx : Follows R A B' x f)
    (hh : ∀ e e', B' e e' → Follows R A B (handler e) (g e')) :
    Follows R A B (Program.handle x handler) (f.orElse g) := by
  intro t s hs
  unfold Model.orElse Program.handle
  rcases hx t s hs with ⟨a, s', heq, b, hb, hab, hs'⟩ | ⟨e, s', heq, e', he', hee, hs'⟩
  · rw [heq]
    generalize f t = out at hb hs' ⊢
    obtain ⟨t', result⟩ := out
    cases hb
    exact .inl ⟨a, s', rfl, b, rfl, hab, hs'⟩
  · rw [heq]
    generalize f t = out at he' hs' ⊢
    obtain ⟨t', result⟩ := out
    cases he'
    exact hh e e' hee t' s' hs'

/-- A model may be replaced by one that does the same. -/
theorem Follows.congr {x : Program ε σ α} {f g : Model τ ε' α'} (h : Follows R A B x f)
    (heq : ∀ t, f t = g t) : Follows R A B x g := fun t ↦ heq t ▸ h t

end

end SpoolCache.Base.Program
