import Mathlib.Tactic.Common

/-!
# Programs that fail or are cut off

Library `Base`. A program is a sequence of calls on a state. The environment decides at each call
whether it takes effect, raises, or is the last thing that happens. A handler sees what was
raised, and nothing runs after a cut. `Meets` is the rule of pre- and postconditions: the
postcondition speaks about every way in which the program may end.
-/

namespace SpoolCache.Base

universe u v w

/-- What the environment does at a call. -/
inductive Fault where
  | none
  | fail
  | crash
  deriving DecidableEq

/-- How a program ends. -/
inductive Outcome (ε : Type u) (α : Type v) where
  | returned (a : α)
  | raised (e : ε)
  | crashed
  deriving DecidableEq

/-- A state, with the faults of the calls to come; calls beyond the list take effect. -/
structure Machine (σ : Type w) where
  faults : List Fault
  state : σ

/-- The calls that are still to fail. -/
def Machine.fails {σ : Type w} (m : Machine σ) : Nat := m.faults.count .fail

/-- A program over states `σ` that raises `ε` or returns `α`. -/
def Program (ε : Type u) (σ : Type w) (α : Type v) : Type (max u v w) :=
  Machine σ → Outcome ε α × Machine σ

namespace Program

variable {ε : Type u} {σ : Type w} {α β : Type v}

/-! ### Building programs -/

/-- Do nothing. -/
def skip (a : α) : Program ε σ α := fun m ↦ (.returned a, m)

/-- Raise an error that the program decides on. -/
def raise (e : ε) : Program ε σ α := fun m ↦ (.raised e, m)

/-- One program after the other. -/
def andThen (x : Program ε σ α) (f : α → Program ε σ β) : Program ε σ β := fun m ↦
  match x m with
  | (.returned a, m) => f a m
  | (.raised e, m) => (.raised e, m)
  | (.crashed, m) => (.crashed, m)

instance : Monad (Program ε σ) where
  pure := skip
  bind := andThen

/-- A call with an effect; `onFail` is what it raises when the environment makes it fail. -/
def call (onFail : ε) (f : σ → Except ε α × σ) : Program ε σ α := fun m ↦
  match m.faults with
  | .fail :: rest => (.raised onFail, ⟨rest, m.state⟩)
  | .crash :: rest => (.crashed, ⟨rest, m.state⟩)
  | faults =>
    match f m.state with
    | (.ok a, s) => (.returned a, ⟨faults.tail, s⟩)
    | (.error e, s) => (.raised e, ⟨faults.tail, s⟩)

/-- A call that always has its effect when it is made. -/
def update (onFail : ε) (f : σ → σ) : Program ε σ PUnit := call onFail fun s ↦ (.ok ⟨⟩, f s)

/-- A call that only looks. -/
def look (onFail : ε) (f : σ → Except ε α) : Program ε σ α := call onFail fun s ↦ (f s, s)

/-- `try` and `except`: the handler decides what becomes of an error. -/
def handle (x : Program ε σ α) (handler : ε → Program ε σ α) : Program ε σ α := fun m ↦
  match x m with
  | (.raised e, m) => handler e m
  | out => out

/-- `try` and `except BaseException`, with the error raised again after the clean-up. An error of
the clean-up takes its place. -/
def onError (x : Program ε σ α) (cleanup : Program ε σ PUnit) : Program ε σ α :=
  handle x fun e ↦ cleanup.andThen fun _ ↦ raise e

/-- Run a program and go on with what it raised, if anything. -/
def attempt (x : Program ε σ PUnit) : Program ε σ (Option ε) := fun m ↦
  match x m with
  | (.returned _, m) => (.returned none, m)
  | (.raised e, m) => (.returned (some e), m)
  | (.crashed, m) => (.crashed, m)

/-- A computation without calls. -/
def ofExcept : Except ε α → Program ε σ α
  | .ok a => skip a
  | .error e => raise e

/-! ### Pre- and postconditions -/

/-- From a machine with `P`, whatever the outcome, `Q` holds of it and of the machine. -/
def Meets (P : Machine σ → Prop) (x : Program ε σ α) (Q : Outcome ε α → Machine σ → Prop) : Prop :=
  ∀ m, P m → Q (x m).1 (x m).2

variable {P : Machine σ → Prop} {Q : Outcome ε α → Machine σ → Prop}

private theorem Meets.mono {Q' : Outcome ε α → Machine σ → Prop} {x : Program ε σ α}
    (h : Meets P x Q) (hQ : ∀ o m, Q o m → Q' o m) : Meets P x Q' := fun m hm ↦ hQ _ _ (h m hm)

/-- A precondition may be strengthened. -/
theorem Meets.pre {P' : Machine σ → Prop} {x : Program ε σ α} (h : Meets P x Q)
    (hP : ∀ m, P' m → P m) : Meets P' x Q := fun m hm ↦ h m (hP m hm)

/-- The rule of sequence: what holds between the two parts, and how the first may end early. -/
theorem Meets.bind {x : Program ε σ α} {f : α → Program ε σ β}
    {R : Outcome ε α → Machine σ → Prop} {Q : Outcome ε β → Machine σ → Prop} (hx : Meets P x R)
    (hf : ∀ a, Meets (R (.returned a)) (f a) Q) (he : ∀ e m, R (.raised e) m → Q (.raised e) m)
    (hc : ∀ m, R .crashed m → Q .crashed m) : Meets P (x >>= f) Q := by
  intro m hm
  have h := hx m hm
  change Q (andThen x f m).1 (andThen x f m).2
  unfold andThen
  generalize x m = out at h
  obtain ⟨o, m'⟩ := out
  cases o with
  | returned a => exact hf a m' h
  | raised e => exact he e m' h
  | crashed => exact hc m' h

/-- A call that a fault stops changes nothing but the faults to come. -/
theorem meets_call {onFail : ε} {f : σ → Except ε α × σ}
    (hfail : ∀ rest s, P ⟨.fail :: rest, s⟩ → Q (.raised onFail) ⟨rest, s⟩)
    (hcrash : ∀ rest s, P ⟨.crash :: rest, s⟩ → Q .crashed ⟨rest, s⟩)
    (hok : ∀ faults s a s', P ⟨faults, s⟩ → faults.head?.getD .none = .none →
      f s = (.ok a, s') → Q (.returned a) ⟨faults.tail, s'⟩)
    (herr : ∀ faults s e s', P ⟨faults, s⟩ → faults.head?.getD .none = .none →
      f s = (.error e, s') → Q (.raised e) ⟨faults.tail, s'⟩) :
    Meets P (call onFail f) Q := by
  rintro ⟨faults, s⟩ hm
  unfold call
  dsimp only
  split
  · exact hfail _ _ hm
  · exact hcrash _ _ hm
  · next hnf hnc =>
    have hnone : faults.head?.getD .none = .none := by
      match faults with
      | [] => rfl
      | .none :: _ => rfl
      | .fail :: rest => exact absurd rfl (hnf rest)
      | .crash :: rest => exact absurd rfl (hnc rest)
    cases hf : f s with
    | mk result s' =>
      cases result with
      | ok a => exact hok faults s a s' hm hnone hf
      | error e => exact herr faults s e s' hm hnone hf

/-- The rule of handlers. -/
theorem Meets.handle {x : Program ε σ α} {handler : ε → Program ε σ α}
    {R : Outcome ε α → Machine σ → Prop} (hx : Meets P x R)
    (hh : ∀ e, Meets (R (.raised e)) (handler e) Q) (hr : ∀ a m, R (.returned a) m → Q (.returned a) m)
    (hc : ∀ m, R .crashed m → Q .crashed m) : Meets P (handle x handler) Q := by
  intro m hm
  have h := hx m hm
  unfold Program.handle
  generalize x m = out at h
  obtain ⟨o, m'⟩ := out
  cases o with
  | returned a => exact hr a m' h
  | raised e => exact hh e m' h
  | crashed => exact hc m' h

/-! ### Invariants -/

/-- However the program ends, `I` holds; when it returns, it has taken `P` to `X`. -/
def Runs (I P : σ → Prop) (x : Program ε σ α) (X : α → σ → Prop) : Prop :=
  Meets (fun m ↦ I m.state ∧ P m.state) x
    fun o m ↦ I m.state ∧ ∀ a, o = .returned a → X a m.state

variable {I P : σ → Prop} {X : α → σ → Prop}

/-- A program that only returns keeps the invariant. -/
theorem runs_pure {a : α} (h : ∀ s, I s → P s → X a s) :
    Runs I P (pure a : Program ε σ α) X := by
  intro m hm
  refine ⟨hm.1, ?_⟩
  intro b hb
  cases hb
  exact h _ hm.1 hm.2

/-- A program that only raises keeps the invariant, whatever the postcondition. -/
theorem runs_raise (e : ε) : Runs I P (raise e : Program ε σ α) X := by
  intro m hm
  refine ⟨hm.1, ?_⟩
  intro a ha
  cases ha

/-- Two programs in a row: the postcondition of the first is the precondition of the second. -/
theorem Runs.bind {x : Program ε σ α} {f : α → Program ε σ β} {Y : β → σ → Prop}
    (hx : Runs I P x X) (hf : ∀ a, Runs I (X a) (f a) Y) : Runs I P (x >>= f) Y := by
  refine Meets.bind hx ?_ ?_ ?_
  · intro a
    exact Meets.pre (hf a) fun m hm ↦ ⟨hm.1, hm.2 a rfl⟩
  · intro e m hm
    exact ⟨hm.1, fun _ h ↦ (by cases h)⟩
  · intro m hm
    exact ⟨hm.1, fun _ h ↦ (by cases h)⟩

/-- A postcondition may be weakened, with the invariant at hand. -/
theorem Runs.mono {x : Program ε σ α} {Y : α → σ → Prop} (h : Runs I P x X)
    (hY : ∀ a s, I s → X a s → Y a s) : Runs I P x Y :=
  Meets.mono h fun _ _ hm ↦ ⟨hm.1, fun a ha ↦ hY a _ hm.1 (hm.2 a ha)⟩

/-- A precondition may be strengthened, with the invariant at hand. -/
theorem Runs.pre {P' : σ → Prop} {x : Program ε σ α} (h : Runs I P x X)
    (hP : ∀ s, I s → P' s → P s) : Runs I P' x X :=
  Meets.pre h fun _ hm ↦ ⟨hm.1, hP _ hm.1 hm.2⟩

/-- A precondition for each of many values covers a state that meets one of them. -/
theorem runs_exists {ι : Type} {P : ι → σ → Prop} {x : Program ε σ α}
    (h : ∀ i, Runs I (P i) x X) : Runs I (fun s ↦ ∃ i, P i s) x X :=
  fun m hm ↦ hm.2.elim fun i hp ↦ h i m ⟨hm.1, hp⟩

/-- A fact of the precondition that names no state is a hypothesis of the proof. -/
theorem runs_of_fact {Q : Prop} {x : Program ε σ α} (h : Q → Runs I P x X) :
    Runs I (fun s ↦ P s ∧ Q) x X :=
  fun m hm ↦ h hm.2.2 m ⟨hm.1, hm.2.1⟩

/-- A call keeps the invariant when its effect does, with an error or without. -/
theorem runs_call {onFail : ε} {f : σ → Except ε α × σ}
    (h : ∀ s, I s → P s → I (f s).2 ∧ ∀ a, (f s).1 = .ok a → X a (f s).2) :
    Runs I P (call onFail f) X := by
  refine meets_call ?_ ?_ ?_ ?_
  · intro rest s hs
    exact ⟨hs.1, fun _ h ↦ (by cases h)⟩
  · intro rest s hs
    exact ⟨hs.1, fun _ h ↦ (by cases h)⟩
  · intro faults s a s' hs _ hf
    have hcall := h s hs.1 hs.2
    rw [hf] at hcall
    refine ⟨hcall.1, ?_⟩
    intro b hb
    cases hb
    exact hcall.2 a rfl
  · intro faults s e s' hs _ hf
    have hcall := h s hs.1 hs.2
    rw [hf] at hcall
    exact ⟨hcall.1, fun _ h ↦ (by cases h)⟩

/-- A call that cannot fail by itself keeps the invariant when its effect does. -/
theorem runs_update {onFail : ε} {f : σ → σ} {Y : PUnit → σ → Prop}
    (h : ∀ s, I s → P s → I (f s) ∧ Y ⟨⟩ (f s)) :
    Runs I P (update onFail f : Program ε σ PUnit) Y := by
  refine runs_call fun s hi hp ↦ ⟨(h s hi hp).1, ?_⟩
  intro a ha
  cases ha
  exact (h s hi hp).2

/-- A call that only looks keeps every invariant. -/
theorem runs_look {onFail : ε} {f : σ → Except ε α}
    (h : ∀ s a, I s → P s → f s = .ok a → X a s) : Runs I P (look onFail f) X :=
  runs_call fun s hi hp ↦ ⟨hi, fun a ha ↦ h s a hi hp ha⟩

/-- A precondition that no call breaks is still there in the end. -/
theorem Runs.frame {x : Program ε σ α} (h : Runs (fun s ↦ I s ∧ P s) (fun _ ↦ True) x X) :
    Runs I P x fun a s ↦ P s ∧ X a s := by
  intro m hm
  have h' := h m ⟨hm, trivial⟩
  exact ⟨h'.1.1, fun a ha ↦ ⟨h'.1.2, h'.2 a ha⟩⟩

/-- A handler starts from the invariant alone. -/
theorem Runs.handle {x : Program ε σ α} {handler : ε → Program ε σ α} (hx : Runs I P x X)
    (hh : ∀ e, Runs I (fun _ ↦ True) (handler e) X) : Runs I P (Program.handle x handler) X := by
  refine Meets.handle hx ?_ (fun _ _ hm ↦ hm) fun _ hm ↦ hm
  intro e
  exact Meets.pre (hh e) fun m hm ↦ ⟨hm.1, trivial⟩

/-- A clean-up that keeps the invariant costs the program nothing. -/
theorem Runs.onError {x : Program ε σ α} {cleanup : Program ε σ PUnit} {Y : PUnit → σ → Prop}
    (hx : Runs I P x X) (hc : Runs I (fun _ ↦ True) cleanup Y) :
    Runs I P (Program.onError x cleanup) X := by
  refine hx.handle fun e ↦ ?_
  have h : Runs I (fun _ ↦ True) (cleanup >>= fun _ ↦ (raise e : Program ε σ α)) X :=
    hc.bind fun _ ↦ runs_raise e
  exact h

/-- After an attempt the program goes on from either outcome. -/
theorem Runs.attempt {x : Program ε σ PUnit} {Y : PUnit → σ → Prop} {Z : Option ε → σ → Prop}
    (h : Runs I P x Y) (hok : ∀ s, I s → Y ⟨⟩ s → Z none s) (herr : ∀ e s, I s → Z (some e) s) :
    Runs I P (Program.attempt x) Z := by
  intro m hm
  have hx := h m hm
  unfold Program.attempt
  generalize x m = out at hx
  obtain ⟨o, m'⟩ := out
  cases o with
  | returned u =>
    refine ⟨hx.1, fun a ha ↦ ?_⟩
    cases ha
    exact hok _ hx.1 (hx.2 u rfl)
  | raised e =>
    refine ⟨hx.1, fun a ha ↦ ?_⟩
    cases ha
    exact herr e _ hx.1
  | crashed => exact ⟨hx.1, fun _ ha ↦ (by cases ha)⟩

/-- A computation without calls leaves the state alone. -/
theorem runs_ofExcept {x : Except ε α} (h : ∀ a s, x = .ok a → I s → P s → X a s) :
    Runs I P (ofExcept x : Program ε σ α) X := by
  cases x with
  | ok a => exact runs_pure fun s hi hp ↦ h a s rfl hi hp
  | error e => exact runs_raise e

/-! ### Programs that end by themselves -/

/-- From `P` the program returns with `X` or raises with `E`; a cut is left open. -/
def Ends (P : Machine σ → Prop) (x : Program ε σ α) (X : α → Machine σ → Prop)
    (E : Machine σ → Prop) : Prop :=
  ∀ m, P m → (∀ a, (x m).1 = .returned a → X a (x m).2) ∧ ∀ e, (x m).1 = .raised e → E (x m).2

section

variable {P : Machine σ → Prop} {X : α → Machine σ → Prop} {E : Machine σ → Prop}

/-- The rule of consequence. -/
theorem Ends.mono {P' E' : Machine σ → Prop} {X' : α → Machine σ → Prop} {x : Program ε σ α}
    (h : Ends P x X E) (hP : ∀ m, P' m → P m) (hX : ∀ a m, X a m → X' a m)
    (hE : ∀ m, E m → E' m) : Ends P' x X' E' := fun m hm ↦
  ⟨fun a ha ↦ hX a _ ((h m (hP m hm)).1 a ha), fun e he ↦ hE _ ((h m (hP m hm)).2 e he)⟩

/-- Two specifications of one program hold together. -/
theorem Ends.and {P' E' : Machine σ → Prop} {X' : α → Machine σ → Prop} {x : Program ε σ α}
    (h : Ends P x X E) (h' : Ends P' x X' E') :
    Ends (fun m ↦ P m ∧ P' m) x (fun a m ↦ X a m ∧ X' a m) fun m ↦ E m ∧ E' m := fun m hm ↦
  ⟨fun a ha ↦ ⟨(h m hm.1).1 a ha, (h' m hm.2).1 a ha⟩,
    fun e he ↦ ⟨(h m hm.1).2 e he, (h' m hm.2).2 e he⟩⟩

/-- A program that only returns ends in the postcondition. -/
theorem ends_pure {a : α} (h : ∀ m, P m → X a m) : Ends P (pure a : Program ε σ α) X E := by
  intro m hm
  refine ⟨fun b hb ↦ ?_, fun e he ↦ (by cases he)⟩
  cases hb
  exact h m hm

/-- A program that only raises ends in the condition for errors. -/
theorem ends_raise {e : ε} (h : ∀ m, P m → E m) : Ends P (raise e : Program ε σ α) X E :=
  fun m hm ↦ ⟨fun _ hb ↦ (by cases hb), fun _ _ ↦ h m hm⟩

/-- A computation without calls ends as its value says. -/
theorem ends_ofExcept {x : Except ε α} (h : ∀ a m, x = .ok a → P m → X a m)
    (he : ∀ m, P m → E m) : Ends P (ofExcept x : Program ε σ α) X E := by
  cases x with
  | ok a => exact ends_pure fun m hm ↦ h a m rfl hm
  | error e => exact ends_raise he

/-- A call uses up one fault when the environment makes it fail, and none otherwise. -/
theorem ends_call {onFail : ε} {f : σ → Except ε α × σ}
    (hfail : ∀ rest s, P ⟨.fail :: rest, s⟩ → E ⟨rest, s⟩)
    (hok : ∀ m a s', P m → m.faults.tail.count .fail = m.fails → f m.state = (.ok a, s') →
      X a ⟨m.faults.tail, s'⟩)
    (herr : ∀ m e s', P m → m.faults.tail.count .fail = m.fails → f m.state = (.error e, s') →
      E ⟨m.faults.tail, s'⟩) :
    Ends P (call onFail f) X E := by
  rintro ⟨faults, s⟩ hp
  unfold call
  dsimp only
  split
  · exact ⟨fun _ h ↦ (by cases h), fun _ _ ↦ hfail _ _ hp⟩
  · exact ⟨fun _ h ↦ (by cases h), fun _ h ↦ (by cases h)⟩
  · next hnf hnc =>
    have hcount : faults.tail.count .fail = (⟨faults, s⟩ : Machine σ).fails := by
      match faults with
      | [] => rfl
      | .none :: _ => rfl
      | .fail :: rest => exact absurd rfl (hnf rest)
      | .crash :: rest => exact absurd rfl (hnc rest)
    split
    · next a s' hf =>
      refine ⟨fun b hb ↦ ?_, fun _ h ↦ (by cases h)⟩
      cases hb
      exact hok ⟨faults, s⟩ a s' hp hcount hf
    · next e s' hf => exact ⟨fun _ h ↦ (by cases h), fun _ _ ↦ herr ⟨faults, s⟩ e s' hp hcount hf⟩

/-- Two programs in a row, with one condition for the errors of both. -/
theorem Ends.bind {x : Program ε σ α} {f : α → Program ε σ β} {Y : β → Machine σ → Prop}
    (hx : Ends P x X E) (hf : ∀ a, Ends (X a) (f a) Y E) : Ends P (x >>= f) Y E := by
  intro m hm
  have hone := hx m hm
  have hbind : (x >>= f) m = andThen x f m := rfl
  rw [hbind]
  unfold andThen
  generalize x m = out at hone
  obtain ⟨o, m'⟩ := out
  cases o with
  | returned a => exact hf a m' (hone.1 a rfl)
  | raised e => exact ⟨fun _ h ↦ (by cases h), fun _ _ ↦ hone.2 e rfl⟩
  | crashed => exact ⟨fun _ h ↦ (by cases h), fun _ h ↦ (by cases h)⟩

/-- An error is raised after the clean-up, or one of the clean-up in its place. -/
theorem Ends.onError {x : Program ε σ α} {cleanup : Program ε σ PUnit} {E' : Machine σ → Prop}
    (hx : Ends P x X E) (hc : Ends E cleanup (fun _ ↦ E') E') :
    Ends P (Program.onError x cleanup) X E' := by
  intro m hm
  have hone := hx m hm
  unfold Program.onError Program.handle
  generalize x m = out at hone
  obtain ⟨o, m'⟩ := out
  cases o with
  | returned a => exact ⟨fun _ h ↦ hone.1 _ h, fun _ h ↦ (by cases h)⟩
  | raised e =>
    have hboth : Ends E (cleanup >>= fun _ ↦ (raise e : Program ε σ α)) X E' :=
      hc.bind fun _ ↦ ends_raise fun _ h ↦ h
    exact hboth m' (hone.2 e rfl)
  | crashed => exact ⟨fun _ h ↦ (by cases h), fun _ h ↦ (by cases h)⟩

/-- After an attempt no error is left, so any condition for errors will do. -/
theorem Ends.attempt {x : Program ε σ PUnit} {X : PUnit → Machine σ → Prop}
    {Z : Option ε → Machine σ → Prop} {E' : Machine σ → Prop} (hx : Ends P x X E)
    (hok : ∀ m, X ⟨⟩ m → Z none m) (herr : ∀ e m, E m → Z (some e) m) :
    Ends P (Program.attempt x) Z E' := by
  intro m hm
  have hone := hx m hm
  unfold Program.attempt
  generalize x m = out at hone
  obtain ⟨o, m'⟩ := out
  cases o with
  | returned u =>
    refine ⟨fun b hb ↦ ?_, fun _ h ↦ (by cases h)⟩
    cases hb
    exact hok m' (hone.1 u rfl)
  | raised e =>
    refine ⟨fun b hb ↦ ?_, fun _ h ↦ (by cases h)⟩
    cases hb
    exact herr e m' (hone.2 e rfl)
  | crashed => exact ⟨fun _ h ↦ (by cases h), fun _ h ↦ (by cases h)⟩

end

/-- An invariant is a condition for both ends. -/
theorem Runs.ends {x : Program ε σ α} (h : Runs I P x X) :
    Ends (fun m ↦ I m.state ∧ P m.state) x (fun a m ↦ I m.state ∧ X a m.state)
      fun m ↦ I m.state := fun m hm ↦
  ⟨fun a ha ↦ ⟨(h m hm).1, (h m hm).2 a ha⟩, fun _ _ ↦ (h m hm).1⟩

/-! ### Counting faults -/

/-- A program that returns has met no failing call. -/
def Strict (x : Program ε σ α) : Prop :=
  ∀ n, Ends (fun m ↦ m.fails = n) x (fun _ m ↦ m.fails = n) fun _ ↦ True

/-- A program that makes no call meets no failing call. -/
theorem strict_pure (a : α) : Strict (pure a : Program ε σ α) := fun _ ↦ ends_pure fun _ h ↦ h

/-- A program that never returns is strict. -/
theorem strict_raise (e : ε) : Strict (raise e : Program ε σ α) :=
  fun _ ↦ ends_raise fun _ _ ↦ trivial

/-- A computation without calls meets no failing call. -/
theorem strict_ofExcept (x : Except ε α) : Strict (ofExcept x : Program ε σ α) :=
  fun _ ↦ ends_ofExcept (fun _ _ _ h ↦ h) fun _ _ ↦ trivial

/-- A call that returns has not failed. -/
theorem strict_call (onFail : ε) (f : σ → Except ε α × σ) : Strict (call onFail f) :=
  fun _ ↦ ends_call (fun _ _ _ ↦ trivial) (fun _ _ _ h hcount _ ↦ hcount.trans h)
    fun _ _ _ _ _ _ ↦ trivial

/-- Two strict programs in a row are strict. -/
theorem Strict.bind {x : Program ε σ α} {f : α → Program ε σ β} (hx : Strict x)
    (hf : ∀ a, Strict (f a)) : Strict (x >>= f) := fun n ↦ (hx n).bind fun a ↦ hf a n

/-- An error is raised again after the clean-up, so the clean-up changes nothing for a return. -/
theorem Strict.onError {x : Program ε σ α} (hx : Strict x) (cleanup : Program ε σ PUnit) :
    Strict (Program.onError x cleanup) := fun n ↦
  (hx n).onError fun _ _ ↦ ⟨fun _ _ ↦ trivial, fun _ _ ↦ trivial⟩

/-- From `P` only the environment makes the program raise: every error uses up a fault. -/
def Robust (P : σ → Prop) (x : Program ε σ α) (X : α → σ → Prop) (E : σ → Prop) : Prop :=
  ∀ n, Ends (fun m ↦ m.fails = n ∧ P m.state) x (fun a m ↦ m.fails = n ∧ X a m.state)
    fun m ↦ m.fails < n ∧ E m.state

/-- A program that only returns is robust. -/
theorem robust_pure {a : α} {E : σ → Prop} (h : ∀ s, P s → X a s) :
    Robust P (pure a : Program ε σ α) X E :=
  fun _ ↦ ends_pure fun m hm ↦ ⟨hm.1, h m.state hm.2⟩

/-- A call whose effect always succeeds raises only when the environment makes it fail. -/
theorem robust_call {onFail : ε} {f : σ → Except ε α × σ} {E : σ → Prop}
    (h : ∀ s, P s → ∃ a s', f s = (.ok a, s') ∧ X a s') (he : ∀ s, P s → E s) :
    Robust P (call onFail f) X E := by
  intro n
  refine ends_call (fun rest s hp ↦ ⟨?_, he s hp.2⟩) (fun m a s' hp hcount hf ↦ ?_)
    fun m e s' hp _ hf ↦ ?_
  · rw [← hp.1]
    change rest.count .fail < (Fault.fail :: rest).count .fail
    rw [List.count_cons_self]
    exact Nat.lt_succ_self _
  · obtain ⟨b, s'', hok, hx⟩ := h m.state hp.2
    rw [hok] at hf
    cases hf
    exact ⟨hcount.trans hp.1, hx⟩
  · obtain ⟨b, s'', hok, -⟩ := h m.state hp.2
    rw [hok] at hf
    cases hf

/-- A call that cannot fail by itself is robust. -/
theorem robust_update {onFail : ε} {f : σ → σ} {Y : PUnit → σ → Prop} {E : σ → Prop}
    (h : ∀ s, P s → Y ⟨⟩ (f s)) (he : ∀ s, P s → E s) :
    Robust P (update onFail f : Program ε σ PUnit) Y E :=
  robust_call (fun s hp ↦ ⟨⟨⟩, f s, rfl, h s hp⟩) he

/-- Two robust programs in a row are robust. -/
theorem Robust.bind {x : Program ε σ α} {f : α → Program ε σ β} {Y : β → σ → Prop}
    {E : σ → Prop} (hx : Robust P x X E) (hf : ∀ a, Robust (X a) (f a) Y E) :
    Robust P (x >>= f) Y E := fun n ↦ (hx n).bind fun a ↦ hf a n

/-! ### Undisturbed runs -/

/-- Without faults the program returns, and takes `P` to `X`. -/
def Returns (P : σ → Prop) (x : Program ε σ α) (X : α → σ → Prop) : Prop :=
  ∀ s, P s → ∃ a s', x ⟨[], s⟩ = (.returned a, ⟨[], s'⟩) ∧ X a s'

/-- Without faults the program raises, and takes `P` to `E`. -/
def Refuses (P : σ → Prop) (x : Program ε σ α) (E : ε → σ → Prop) : Prop :=
  ∀ s, P s → ∃ e s', x ⟨[], s⟩ = (.raised e, ⟨[], s'⟩) ∧ E e s'

section

variable {P : σ → Prop} {X : α → σ → Prop} {E : ε → σ → Prop}

/-- A program that only returns does so. -/
theorem returns_pure {a : α} (h : ∀ s, P s → X a s) : Returns P (pure a : Program ε σ α) X :=
  fun s hs ↦ ⟨a, s, rfl, h s hs⟩

/-- A call returns where its effect succeeds. -/
theorem returns_call {onFail : ε} {f : σ → Except ε α × σ}
    (h : ∀ s, P s → ∃ a s', f s = (.ok a, s') ∧ X a s') : Returns P (call onFail f) X := by
  intro s hs
  obtain ⟨a, s', hf, hx⟩ := h s hs
  refine ⟨a, s', ?_, hx⟩
  unfold call
  dsimp only
  rw [hf]
  rfl

/-- A call that cannot fail by itself returns. -/
theorem returns_update {onFail : ε} {f : σ → σ} {Y : PUnit → σ → Prop}
    (h : ∀ s, P s → Y ⟨⟩ (f s)) : Returns P (update onFail f : Program ε σ PUnit) Y :=
  returns_call fun s hs ↦ ⟨⟨⟩, f s, rfl, h s hs⟩

/-- A postcondition may be weakened. -/
theorem Returns.mono {x : Program ε σ α} {Y : α → σ → Prop} (h : Returns P x X)
    (hY : ∀ a s, X a s → Y a s) : Returns P x Y := by
  intro s hs
  obtain ⟨a, s', heq, hx⟩ := h s hs
  exact ⟨a, s', heq, hY a s' hx⟩

/-- After a program that returned comes the rest, at its value. -/
theorem bind_of_returned {x : Program ε σ α} {f : α → Program ε σ β} {m m' : Machine σ} {a : α}
    (h : x m = (.returned a, m')) : (x >>= f) m = f a m' := by
  have hbind : (x >>= f) m = andThen x f m := rfl
  rw [hbind]
  unfold andThen
  rw [h]

/-- After a program that raised nothing is run. -/
theorem bind_of_raised {x : Program ε σ α} {m m' : Machine σ} {e : ε} (h : x m = (.raised e, m'))
    (f : α → Program ε σ β) : (x >>= f) m = (.raised e, m') := by
  have hbind : (x >>= f) m = andThen x f m := rfl
  rw [hbind]
  unfold andThen
  rw [h]

/-- Two programs that return, in a row. -/
theorem Returns.bind {x : Program ε σ α} {f : α → Program ε σ β} {Y : β → σ → Prop}
    (hx : Returns P x X) (hf : ∀ a, Returns (X a) (f a) Y) : Returns P (x >>= f) Y := by
  intro s hs
  obtain ⟨a, s', heq, hxa⟩ := hx s hs
  rw [bind_of_returned heq]
  exact hf a s' hxa

/-- A program that is refused is refused with anything after it. -/
theorem Refuses.bind {x : Program ε σ α} (hx : Refuses P x E) (f : α → Program ε σ β) :
    Refuses P (x >>= f) E := by
  intro s hs
  obtain ⟨e, s', heq, he⟩ := hx s hs
  exact ⟨e, s', bind_of_raised heq f, he⟩

/-- A program that returns runs no clean-up. -/
theorem Returns.onError {x : Program ε σ α} (hx : Returns P x X) (cleanup : Program ε σ PUnit) :
    Returns P (Program.onError x cleanup) X := by
  intro s hs
  obtain ⟨a, s', heq, hxa⟩ := hx s hs
  refine ⟨a, s', ?_, hxa⟩
  unfold Program.onError handle
  rw [heq]

/-- The error is raised again after a clean-up that returns. -/
theorem Refuses.onError {x : Program ε σ α} {cleanup : Program ε σ PUnit} (hx : Refuses P x E)
    (hc : ∀ e, Returns (E e) cleanup fun _ ↦ E e) : Refuses P (Program.onError x cleanup) E := by
  intro s hs
  obtain ⟨e, s', heq, he⟩ := hx s hs
  obtain ⟨u, s'', hclean, he'⟩ := hc e s' he
  refine ⟨e, s'', ?_, he'⟩
  unfold Program.onError handle andThen
  rw [heq]
  dsimp only
  rw [hclean]
  rfl

/-- An attempt goes on from where its program ended, by a value or by an error. -/
theorem returns_attempt {x : Program ε σ PUnit} {Y : Option ε → σ → Prop}
    (h : ∀ s, P s → ∃ s', (x ⟨[], s⟩ = (.returned ⟨⟩, ⟨[], s'⟩) ∧ Y none s') ∨
      ∃ e, x ⟨[], s⟩ = (.raised e, ⟨[], s'⟩) ∧ Y (some e) s') :
    Returns P (Program.attempt x) Y := by
  intro s hs
  unfold Program.attempt
  obtain ⟨s', ⟨heq, hy⟩ | ⟨e, heq, hy⟩⟩ := h s hs
  · exact ⟨none, s', by rw [heq], hy⟩
  · exact ⟨some e, s', by rw [heq], hy⟩

/-- Programs that run alike from a machine run alike when they are followed by the same. -/
theorem bind_congr {x y : Program ε σ α} {m : Machine σ} (h : x m = y m)
    (f : α → Program ε σ β) : (x >>= f) m = (y >>= f) m := by
  have hbind : ∀ z : Program ε σ α, (z >>= f) m = andThen z f m := fun _ ↦ rfl
  rw [hbind, hbind]
  unfold andThen
  rw [h]

/-- Programs that agree at a machine agree there with the same clean-up. -/
theorem onError_congr {x y : Program ε σ α} {m : Machine σ} (h : x m = y m)
    (cleanup : Program ε σ PUnit) : Program.onError x cleanup m = Program.onError y cleanup m := by
  unfold Program.onError handle
  rw [h]

end

/-! ### Runs without a cut -/

/-- A program that ends by itself when nothing cuts it off. -/
def Uncut (x : Program ε σ α) : Prop :=
  Meets (fun m ↦ .crash ∉ m.faults) x fun o m ↦ o ≠ .crashed ∧ .crash ∉ m.faults

/-- A program that only returns is not cut off. -/
theorem uncut_pure (a : α) : Uncut (pure a : Program ε σ α) :=
  fun _ h ↦ ⟨fun he ↦ (by cases he), h⟩

/-- A program that only raises is not cut off. -/
theorem uncut_raise (e : ε) : Uncut (raise e : Program ε σ α) :=
  fun _ h ↦ ⟨fun he ↦ (by cases he), h⟩

/-- Two programs in a row are cut off only where one of them is. -/
theorem Uncut.bind {x : Program ε σ α} {f : α → Program ε σ β} (hx : Uncut x)
    (hf : ∀ a, Uncut (f a)) : Uncut (x >>= f) :=
  Meets.bind hx (fun a ↦ Meets.pre (hf a) fun _ h ↦ h.2)
    (fun _ _ h ↦ ⟨fun he ↦ (by cases he), h.2⟩) fun _ h ↦ absurd rfl h.1

/-- A call is cut off only by a fault that says so. -/
theorem uncut_call (onFail : ε) (f : σ → Except ε α × σ) : Uncut (call onFail f) := by
  refine meets_call ?_ ?_ ?_ ?_
  · intro rest s h
    exact ⟨fun he ↦ (by cases he), fun hm ↦ h (List.mem_cons_of_mem _ hm)⟩
  · intro rest s h
    exact absurd List.mem_cons_self h
  · intro faults s a s' h _ _
    exact ⟨fun he ↦ (by cases he), fun hm ↦ h (List.mem_of_mem_tail hm)⟩
  · intro faults s e s' h _ _
    exact ⟨fun he ↦ (by cases he), fun hm ↦ h (List.mem_of_mem_tail hm)⟩

/-- A handler that ends by itself keeps the whole so. -/
theorem Uncut.handle {x : Program ε σ α} {handler : ε → Program ε σ α} (hx : Uncut x)
    (hh : ∀ e, Uncut (handler e)) : Uncut (Program.handle x handler) :=
  Meets.handle hx (fun e ↦ Meets.pre (hh e) fun _ h ↦ h.2)
    (fun _ _ h ↦ ⟨fun he ↦ (by cases he), h.2⟩) fun _ h ↦ absurd rfl h.1

/-- A clean-up that ends by itself keeps the whole so. -/
theorem Uncut.onError {x : Program ε σ α} {cleanup : Program ε σ PUnit} (hx : Uncut x)
    (hc : Uncut cleanup) : Uncut (Program.onError x cleanup) := by
  refine hx.handle fun e ↦ ?_
  have h : Uncut (cleanup >>= fun _ ↦ (raise e : Program ε σ α)) := hc.bind fun _ ↦ uncut_raise e
  exact h

/-! ### Values and errors -/

/-- Whatever the environment does, a value that is returned satisfies `R`, and an error that is
raised satisfies `E`. -/
def Ensures (R : α → Prop) (E : ε → Prop) (x : Program ε σ α) : Prop :=
  ∀ m, (∀ a, (x m).1 = .returned a → R a) ∧ ∀ e, (x m).1 = .raised e → E e

section

variable {R : α → Prop} {E : ε → Prop}

/-- A returned value satisfies what is shown of it. -/
theorem ensures_pure {a : α} (h : R a) : Ensures R E (pure a : Program ε σ α) := by
  intro m
  refine ⟨fun b hb ↦ ?_, fun e he ↦ (by cases he)⟩
  cases hb
  exact h

/-- A raised error satisfies what is shown of it. -/
theorem ensures_raise {e : ε} (h : E e) : Ensures R E (raise e : Program ε σ α) := by
  intro m
  refine ⟨fun b hb ↦ (by cases hb), fun e' he ↦ ?_⟩
  cases he
  exact h

/-- A computation without calls returns or raises what its value says. -/
theorem ensures_ofExcept {x : Except ε α} (hok : ∀ a, x = .ok a → R a)
    (herr : ∀ e, x = .error e → E e) : Ensures R E (ofExcept x : Program ε σ α) := by
  cases x with
  | ok a => exact ensures_pure (hok a rfl)
  | error e => exact ensures_raise (herr e rfl)

/-- A call raises the error of the environment, or answers as its effect does. -/
theorem ensures_call {onFail : ε} {f : σ → Except ε α × σ} (hfail : E onFail)
    (hok : ∀ s a, (f s).1 = .ok a → R a) (herr : ∀ s e, (f s).1 = .error e → E e) :
    Ensures R E (call onFail f) := by
  intro m
  have h := @meets_call ε σ α (fun _ ↦ True) (fun o _ ↦ (∀ a, o = .returned a → R a) ∧
    ∀ e, o = .raised e → E e) onFail f ?_ ?_ ?_ ?_ m trivial
  · exact h
  · rintro rest s -
    refine ⟨fun a ha ↦ (by cases ha), fun e he ↦ ?_⟩
    cases he
    exact hfail
  · rintro rest s -
    exact ⟨fun a ha ↦ (by cases ha), fun e he ↦ (by cases he)⟩
  · rintro faults s a s' - - hf
    refine ⟨fun b hb ↦ ?_, fun e he ↦ (by cases he)⟩
    cases hb
    exact hok s a (congrArg Prod.fst hf)
  · rintro faults s e s' - - hf
    refine ⟨fun b hb ↦ (by cases hb), fun e' he ↦ ?_⟩
    cases he
    exact herr s e (congrArg Prod.fst hf)

/-- A call that cannot fail by itself raises the error of the environment only. -/
theorem ensures_update {onFail : ε} {f : σ → σ} (hfail : E onFail) :
    Ensures (fun _ ↦ True) E (update onFail f : Program ε σ PUnit) :=
  ensures_call hfail (fun _ _ _ ↦ trivial) fun _ _ h ↦ (by cases h)

/-- Two programs in a row raise the errors of either. -/
theorem Ensures.bind {x : Program ε σ α} {f : α → Program ε σ β} {T : β → Prop}
    (hx : Ensures R E x) (hf : ∀ a, R a → Ensures T E (f a)) : Ensures T E (x >>= f) := by
  intro m
  have hone := hx m
  have hbind : (x >>= f) m = andThen x f m := rfl
  rw [hbind]
  unfold andThen
  generalize x m = out at hone
  obtain ⟨o, m'⟩ := out
  cases o with
  | returned a => exact hf a (hone.1 a rfl) m'
  | raised e => exact ⟨fun _ h ↦ (by cases h), fun e' h ↦ hone.2 e' (by cases h; rfl)⟩
  | crashed => exact ⟨fun _ h ↦ (by cases h), fun _ h ↦ (by cases h)⟩

/-- A clean-up adds its own errors, and no value. -/
theorem Ensures.onError {x : Program ε σ α} {cleanup : Program ε σ PUnit} {T : PUnit → Prop}
    (hx : Ensures R E x) (hc : Ensures T E cleanup) :
    Ensures R E (Program.onError x cleanup) := by
  intro m
  have hone := hx m
  unfold Program.onError Program.handle
  generalize x m = out at hone
  obtain ⟨o, m'⟩ := out
  cases o with
  | returned a => exact hone
  | raised e =>
    have hboth : Ensures R E (cleanup >>= fun _ ↦ (raise e : Program ε σ α)) :=
      hc.bind fun _ _ ↦ ensures_raise (hone.2 e rfl)
    exact hboth m'
  | crashed => exact hone

/-- An attempt raises nothing. -/
theorem ensures_attempt (x : Program ε σ PUnit) :
    Ensures (fun _ ↦ True) E (Program.attempt x) := by
  intro m
  refine ⟨fun _ _ ↦ trivial, fun e he ↦ ?_⟩
  unfold Program.attempt at he
  split at he <;> cases he

end

end Program

end SpoolCache.Base
