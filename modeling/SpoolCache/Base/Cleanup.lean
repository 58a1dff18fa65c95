import SpoolCache.Base.Fallible

/-!
# Clean-up, and programs on a part of a state

Library `Base`. `always` is `try` and `finally`: the clean-up runs whether its program returned
or raised, and an error of the clean-up takes the place of the outcome. `effect` is a step of the
program itself, which cannot fail. `zoom` runs a program on one part of a larger state. `Under`
speaks about the three ways in which a program ends, and about what the environment is spared.
-/

namespace SpoolCache.Base.Program

universe u v w

variable {ε : Type u} {σ τ : Type w} {α β : Type v}

/-- A step that no fault stops. -/
def effect (f : σ → σ) : Program ε σ PUnit := fun m ↦ (.returned ⟨⟩, ⟨m.faults, f m.state⟩)

/-- Read the state. -/
def observe (f : σ → α) : Program ε σ α := fun m ↦ (.returned (f m.state), m)

/-- `try` and `finally`. -/
def always (x : Program ε σ α) (cleanup : Program ε σ PUnit) : Program ε σ α := fun m ↦
  match x m with
  | (.returned a, m) => cleanup.andThen (fun _ ↦ skip a) m
  | (.raised e, m) => cleanup.andThen (fun _ ↦ raise e) m
  | (.crashed, m) => (.crashed, m)

/-- A program on the part of a state that `get` reads and `set` replaces. -/
def zoom (get : σ → τ) (set : τ → σ → σ) (x : Program ε τ α) : Program ε σ α := fun m ↦
  match x ⟨m.faults, get m.state⟩ with
  | (o, m') => (o, ⟨m'.faults, set m'.state m.state⟩)

/-- From `P` a program returns with `X`, raises with `E` or is cut off with `C`, where no call
fails if `calm`. -/
def Under (calm : Prop) (P : σ → Prop) (x : Program ε σ α) (X : α → σ → Prop) (E : ε → σ → Prop)
    (C : σ → Prop) : Prop :=
  Meets (fun m ↦ (calm → .fail ∉ m.faults) ∧ P m.state) x fun o m ↦
    (calm → .fail ∉ m.faults) ∧ (∀ a, o = .returned a → X a m.state) ∧
      (∀ e, o = .raised e → E e m.state) ∧ (o = .crashed → C m.state)

section

variable {calm : Prop} {P : σ → Prop} {X : α → σ → Prop} {E : ε → σ → Prop} {C : σ → Prop}

/-- A program that only returns ends in its postcondition. -/
theorem under_pure {a : α} (h : ∀ s, P s → X a s) : Under calm P (pure a : Program ε σ α) X E C := by
  rintro m ⟨hf, hm⟩
  refine ⟨hf, fun b hb ↦ ?_, fun _ h ↦ (by cases h), fun h ↦ (by cases h)⟩
  cases hb
  exact h _ hm

/-- A program that only raises ends in its condition for errors. -/
theorem under_raise {e : ε} (h : ∀ s, P s → E e s) :
    Under calm P (raise e : Program ε σ α) X E C := by
  rintro m ⟨hf, hm⟩
  refine ⟨hf, fun _ h ↦ (by cases h), fun e' he ↦ ?_, fun h ↦ (by cases h)⟩
  cases he
  exact h _ hm

/-- A computation without calls ends as its value says. -/
theorem under_ofExcept {x : Except ε α} (hok : ∀ a s, x = .ok a → P s → X a s)
    (herr : ∀ e s, x = .error e → P s → E e s) :
    Under calm P (ofExcept x : Program ε σ α) X E C := by
  cases x with
  | ok a => exact under_pure fun s h ↦ hok a s rfl h
  | error e => exact under_raise fun s h ↦ herr e s rfl h

/-- A step that no fault stops takes place. -/
theorem under_effect {f : σ → σ} {X : PUnit → σ → Prop} (h : ∀ s, P s → X ⟨⟩ (f s)) :
    Under calm P (effect f : Program ε σ PUnit) X E C := by
  rintro m ⟨hf, hm⟩
  exact ⟨hf, fun _ _ ↦ h _ hm, fun _ h ↦ (by cases h), fun h ↦ (by cases h)⟩

/-- Reading the state gives what is there. -/
theorem under_observe {f : σ → α} (h : ∀ s, P s → X (f s) s) :
    Under calm P (observe f : Program ε σ α) X E C := by
  rintro m ⟨hf, hm⟩
  refine ⟨hf, fun a ha ↦ ?_, fun _ h ↦ (by cases h), fun h ↦ (by cases h)⟩
  cases ha
  exact h _ hm

private theorem under_call {onFail : ε} {f : σ → Except ε α × σ}
    (hok : ∀ s a s', P s → f s = (.ok a, s') → X a s')
    (herr : ∀ s e s', P s → f s = (.error e, s') → E e s')
    (hfail : ∀ s, P s → ¬ calm → E onFail s) (hcrash : ∀ s, P s → C s) :
    Under calm P (call onFail f) X E C := by
  refine meets_call ?_ ?_ ?_ ?_
  · rintro rest s ⟨hf, hs⟩
    have hcalm : ¬ calm := fun hc ↦ hf hc List.mem_cons_self
    refine ⟨fun hc ↦ absurd hc hcalm, fun _ h ↦ (by cases h), fun e he ↦ ?_, fun h ↦ (by cases h)⟩
    cases he
    exact hfail s hs hcalm
  · rintro rest s ⟨hf, hs⟩
    exact ⟨fun hc hm ↦ hf hc (List.mem_cons_of_mem _ hm), fun _ h ↦ (by cases h),
      fun _ h ↦ (by cases h), fun _ ↦ hcrash s hs⟩
  · rintro faults s a s' ⟨hf, hs⟩ - hcall
    refine ⟨fun hc hm ↦ hf hc (List.mem_of_mem_tail hm), fun b hb ↦ ?_, fun _ h ↦ (by cases h),
      fun h ↦ (by cases h)⟩
    cases hb
    exact hok s a s' hs hcall
  · rintro faults s e s' ⟨hf, hs⟩ - hcall
    refine ⟨fun hc hm ↦ hf hc (List.mem_of_mem_tail hm), fun _ h ↦ (by cases h), fun e' he ↦ ?_,
      fun h ↦ (by cases h)⟩
    cases he
    exact herr s e s' hs hcall

/-- A call that cannot fail by itself takes place, fails where calls may, or is cut off. -/
theorem under_update {onFail : ε} {f : σ → σ} {X : PUnit → σ → Prop} (h : ∀ s, P s → X ⟨⟩ (f s))
    (hfail : ∀ s, P s → ¬ calm → E onFail s) (hcrash : ∀ s, P s → C s) :
    Under calm P (update onFail f : Program ε σ PUnit) X E C := by
  refine under_call (fun s a s' hs hf ↦ ?_) (fun s e s' _ hf ↦ ?_) hfail hcrash
  · cases hf
    exact h s hs
  · cases hf

/-- A call that only looks answers, fails where calls may, or is cut off. -/
theorem under_look {onFail : ε} {f : σ → Except ε α} (hok : ∀ s a, P s → f s = .ok a → X a s)
    (herr : ∀ s e, P s → f s = .error e → E e s) (hfail : ∀ s, P s → ¬ calm → E onFail s)
    (hcrash : ∀ s, P s → C s) : Under calm P (look onFail f) X E C := by
  refine under_call (fun s a s' hs hcall ↦ ?_) (fun s e s' hs hcall ↦ ?_) hfail hcrash
  · obtain ⟨hvalue, hstate⟩ := Prod.mk.inj hcall
    rw [← hstate]
    exact hok s a hs hvalue
  · obtain ⟨hvalue, hstate⟩ := Prod.mk.inj hcall
    rw [← hstate]
    exact herr s e hs hvalue

/-- The rule of consequence. -/
theorem Under.mono {x : Program ε σ α} {P' : σ → Prop} {X' : α → σ → Prop} {E' : ε → σ → Prop}
    {C' : σ → Prop} (h : Under calm P x X E C) (hP : ∀ s, P' s → P s) (hX : ∀ a s, X a s → X' a s)
    (hE : ∀ e s, E e s → E' e s) (hC : ∀ s, C s → C' s) : Under calm P' x X' E' C' :=
  fun m hm ↦
    have h' := h m ⟨hm.1, hP _ hm.2⟩
    ⟨h'.1, fun a ha ↦ hX a _ (h'.2.1 a ha), fun e he ↦ hE e _ (h'.2.2.1 e he),
      fun hc ↦ hC _ (h'.2.2.2 hc)⟩

/-- A precondition for each of many values covers a state that meets one of them. -/
theorem under_exists {ι : Type} {P : ι → σ → Prop} {x : Program ε σ α}
    (h : ∀ i, Under calm (P i) x X E C) : Under calm (fun s ↦ ∃ i, P i s) x X E C :=
  fun m hm ↦ hm.2.elim fun i hp ↦ h i m ⟨hm.1, hp⟩

/-- A fact of the precondition that names no state is a hypothesis of the proof. -/
theorem under_of_fact {F : Prop} {x : Program ε σ α} (h : F → Under calm P x X E C) :
    Under calm (fun s ↦ F ∧ P s) x X E C := fun m hm ↦ h hm.2.1 m ⟨hm.1, hm.2.2⟩

/-- Two programs in a row, with the errors and the cuts of both. -/
theorem Under.bind {x : Program ε σ α} {f : α → Program ε σ β} {Y : β → σ → Prop}
    (hx : Under calm P x X E C) (hf : ∀ a, Under calm (X a) (f a) Y E C) :
    Under calm P (x >>= f) Y E C := by
  refine Meets.bind hx (fun a ↦ Meets.pre (hf a) fun m hm ↦ ⟨hm.1, hm.2.1 a rfl⟩) ?_ ?_
  · rintro e m ⟨hm, -, he, -⟩
    refine ⟨hm, fun _ h ↦ (by cases h), fun e' h ↦ ?_, fun h ↦ (by cases h)⟩
    cases h
    exact he e rfl
  · rintro m ⟨hm, -, -, hc⟩
    exact ⟨hm, fun _ h ↦ (by cases h), fun _ h ↦ (by cases h), fun _ ↦ hc rfl⟩

/-- A handler starts from where its program raised. -/
theorem Under.handle {x : Program ε σ α} {handler : ε → Program ε σ α} {F : ε → σ → Prop}
    (hx : Under calm P x X F C) (hh : ∀ e, Under calm (F e) (handler e) X E C) :
    Under calm P (Program.handle x handler) X E C := by
  refine Meets.handle hx (fun e ↦ Meets.pre (hh e) fun m hm ↦ ⟨hm.1, hm.2.2.1 e rfl⟩) ?_ ?_
  · rintro a m ⟨hm, ha, -, -⟩
    exact ⟨hm, ha, fun _ h ↦ (by cases h), fun h ↦ (by cases h)⟩
  · rintro m ⟨hm, -, -, hc⟩
    exact ⟨hm, fun _ h ↦ (by cases h), fun _ h ↦ (by cases h), hc⟩

/-- A clean-up runs after either end of its program, and may raise itself. -/
theorem Under.always {x : Program ε σ α} {cleanup : Program ε σ PUnit} {Y : α → σ → Prop}
    {F : ε → σ → Prop} (hx : Under calm P x Y F C)
    (hreturn : ∀ a, Under calm (Y a) cleanup (fun _ ↦ X a) E C)
    (hraise : ∀ e, Under calm (F e) cleanup (fun _ ↦ E e) E C) :
    Under calm P (Program.always x cleanup) X E C := by
  intro m hm
  have h := hx m hm
  unfold Program.always
  generalize x m = out at h
  obtain ⟨o, m'⟩ := out
  obtain ⟨hf, ha, he, hc⟩ := h
  cases o with
  | returned a =>
    have hnext : Under calm (Y a) (cleanup >>= fun _ ↦ (pure a : Program ε σ α)) X E C :=
      (hreturn a).bind fun _ ↦ under_pure fun _ h ↦ h
    exact hnext m' ⟨hf, ha a rfl⟩
  | raised e =>
    have hnext : Under calm (F e) (cleanup >>= fun _ ↦ (raise e : Program ε σ α)) X E C :=
      (hraise e).bind fun _ ↦ under_raise fun _ h ↦ h
    exact hnext m' ⟨hf, he e rfl⟩
  | crashed => exact ⟨hf, fun _ h ↦ (by cases h), fun _ h ↦ (by cases h), hc⟩

/-- A program on a part takes the part as it takes it alone, and leaves the rest. -/
theorem under_zoom {get : σ → τ} {set : τ → σ → σ} {x : Program ε τ α} {P' : σ → τ → Prop}
    {X' : σ → α → τ → Prop} {E' : σ → ε → τ → Prop} {C' : σ → τ → Prop}
    (hx : ∀ s, Under calm (P' s) x (X' s) (E' s) (C' s)) (hP : ∀ s, P s → P' s (get s))
    (hX : ∀ s a t, P s → X' s a t → X a (set t s)) (hE : ∀ s e t, P s → E' s e t → E e (set t s))
    (hC : ∀ s t, P s → C' s t → C (set t s)) : Under calm P (zoom get set x) X E C := by
  rintro m ⟨hf, hm⟩
  obtain ⟨hf', ha, he, hc⟩ := hx m.state ⟨m.faults, get m.state⟩ ⟨hf, hP _ hm⟩
  exact ⟨hf', fun a h ↦ hX _ _ _ hm (ha a h), fun e h ↦ hE _ _ _ hm (he e h),
    fun h ↦ hC _ _ hm (hc h)⟩

end

/-! ### Undisturbed runs -/

section

variable {P : σ → Prop} {X : α → σ → Prop}

/-- A fact of the precondition that names no state is a hypothesis of the proof. -/
theorem returns_of_fact {F : Prop} {x : Program ε σ α} (h : F → Returns P x X) :
    Returns (fun s ↦ F ∧ P s) x X := fun s hs ↦ h hs.1 s hs.2

/-- A call that only looks returns where it finds something. -/
theorem returns_look {onFail : ε} {f : σ → Except ε α} (h : ∀ s, P s → ∃ a, f s = .ok a ∧ X a s) :
    Returns P (look onFail f) X := by
  refine returns_call fun s hs ↦ ?_
  obtain ⟨a, hf, hx⟩ := h s hs
  exact ⟨a, s, by rw [hf], hx⟩

/-- A step that no fault stops returns. -/
theorem returns_effect {f : σ → σ} {Y : PUnit → σ → Prop} (h : ∀ s, P s → Y ⟨⟩ (f s)) :
    Returns P (effect f : Program ε σ PUnit) Y := fun s hs ↦ ⟨⟨⟩, f s, rfl, h s hs⟩

/-- Reading the state returns. -/
theorem returns_observe {f : σ → α} (h : ∀ s, P s → X (f s) s) :
    Returns P (observe f : Program ε σ α) X := fun s hs ↦ ⟨f s, s, rfl, h s hs⟩

/-- A program that returns needs no handler. -/
theorem Returns.handle {x : Program ε σ α} (hx : Returns P x X) (handler : ε → Program ε σ α) :
    Returns P (Program.handle x handler) X := by
  intro s hs
  obtain ⟨a, s', heq, ha⟩ := hx s hs
  refine ⟨a, s', ?_, ha⟩
  unfold Program.handle
  rw [heq]

/-- The clean-up runs from where its program returned. -/
theorem Returns.always {x : Program ε σ α} {cleanup : Program ε σ PUnit} {Y : α → σ → Prop}
    (hx : Returns P x Y) (hc : ∀ a, Returns (Y a) cleanup fun _ ↦ X a) :
    Returns P (Program.always x cleanup) X := by
  intro s hs
  obtain ⟨a, s', heq, ha⟩ := hx s hs
  obtain ⟨u, s'', hclean, ha'⟩ := hc a s' ha
  refine ⟨a, s'', ?_, ha'⟩
  unfold Program.always andThen
  rw [heq]
  dsimp only
  rw [hclean]
  rfl

/-- A program on a part of the state returns where it does on the part alone. -/
theorem returns_zoom {get : σ → τ} {set : τ → σ → σ} {x : Program ε τ α} {Y : σ → α → τ → Prop}
    (hx : ∀ s, P s → Returns (fun t ↦ t = get s) x (Y s))
    (hX : ∀ s a t, P s → Y s a t → X a (set t s)) : Returns P (zoom get set x) X := by
  intro s hs
  obtain ⟨a, t, heq, hy⟩ := hx s hs (get s) rfl
  refine ⟨a, set t s, ?_, hX s a t hs hy⟩
  unfold zoom
  rw [heq]

end

end SpoolCache.Base.Program
