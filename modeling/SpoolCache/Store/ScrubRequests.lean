import SpoolCache.Store.Scrub

/-!
# Requests to the scrubber

A request is one field of the record that all scrubbers share. Steps work from a copy of the record
that they read in an earlier section, and write the whole record back; they do so only where the
record is still their copy. So a request stays until a step answers it, it is answered for its own
key after an attempt on that key, and only one step reports the answer.
-/

namespace SpoolCache.Store

open SpoolCache.Base

/-! ### What every step knows -/

/-- The target of a step and its copy of the record belong together, and it has an answer exactly
when its loop has stored one. -/
def StepState.Serves (step : StepState) : Prop :=
  match step.target with
  | none => step.held.targetEntry = none ∧ step.answered = none
  | some key =>
    (step.held.targetEntry = some key ∧ step.remaining = [key] ∧ step.checked = 0 ∧
        step.answered = none) ∨
      (step.held.targetEntry = none ∧ step.remaining = [] ∧ 0 < step.checked ∧
        step.answered ≠ none)

/-- What holds of every root: numbers of requests are used up in order. -/
abbrev RequestBounded (w : ScrubWorld) : Prop :=
  w.Carries (fun stored ↦ stored.request < w.nextRequest)
    fun step ↦ step.Serves ∧ ∀ n ∈ step.answered, n < w.nextRequest

private theorem StepState.Serves.held_target {step : StepState} (h : step.Serves) {key : Digest}
    {rest : List Digest} (hr : step.remaining = key :: rest) :
    step.held.targetEntry = step.target ∧ (step.target ≠ none → step.target = some key) := by
  unfold StepState.Serves at h
  split at h
  · next ht => exact ⟨h.1.trans ht.symm, fun hne ↦ absurd ht hne⟩
  · next k ht =>
    rcases h with ⟨hh, hrem, -⟩ | ⟨-, hrem, -⟩
    · rw [hrem, List.cons.injEq] at hr
      rw [hr.1] at hh ht
      exact ⟨hh.trans ht.symm, fun _ ↦ ht⟩
    · rw [hrem] at hr
      cases hr

private theorem serves_begin {s : RankState} {r : ScrubRecord} {itemBudget payloadBudgetBytes : Nat}
    {step : StepState} (h : beginStep s r itemBudget payloadBudgetBytes = .ok step) :
    step.Serves ∧ step.answered = none := by
  unfold beginStep at h
  split at h
  · cases h
  · split at h
    · cases h
    · obtain ⟨state, -, h⟩ := bind_ok h
      cases h
      refine ⟨?_, rfl⟩
      unfold StepState.Serves selectKeys
      dsimp only
      cases ht : state.targetEntry with
      | none => exact ⟨rfl, rfl⟩
      | some key => exact .inl ⟨rfl, rfl, rfl, rfl⟩

private theorem serves_advance {step : StepState} {key : Digest} {rest : List Digest}
    (h : step.Serves) (hr : step.remaining = key :: rest) (attempt : ScrubAttempt) (n : Nat) :
    StepState.Serves { step.advance key attempt with answered := step.target.map fun _ ↦ n } := by
  unfold StepState.Serves at h ⊢
  unfold StepState.advance
  dsimp only
  cases ht : step.target with
  | none =>
    rw [ht] at h
    rw [if_pos rfl]
    exact ⟨h.1, rfl⟩
  | some k =>
    rw [ht] at h
    rw [if_neg (Option.some_ne_none k)]
    refine .inr ⟨rfl, ?_, Nat.succ_pos _, Option.some_ne_none n⟩
    rcases h with ⟨-, hrem, -⟩ | ⟨-, hrem, -⟩
    · rw [hrem]
      rfl
    · rw [hrem] at hr
      cases hr

/-- What a round stores of the request: it stays as it was when the step has no target. -/
theorem roundStored_target (w : ScrubWorld) (step : StepState) (key : Digest)
    (attempt : ScrubAttempt) :
    (roundStored w step key attempt).record.targetEntry =
      if step.target = none then step.held.targetEntry else none := by
  unfold roundStored StepState.advance
  dsimp only
  split <;> rfl

private theorem RequestBounded.save {w : ScrubWorld} (h : RequestBounded w) {new : Stored}
    (hn : new.request < w.nextRequest) (outcome : SaveOutcome) :
    RequestBounded (w.save new outcome) := by
  have hsaved := ScrubWorld.Carries.save h hn outcome
  refine ⟨?_, ?_⟩
  · rw [ScrubWorld.nextRequest_save]
    exact hsaved.records
  · rw [ScrubWorld.nextRequest_save]
    exact hsaved.instances

private theorem RequestBounded.change {config : StoreConfig} {w w' : ScrubWorld}
    {event : ScrubEvent}
    (h : RequestBounded w) (hc : ScrubChange config w event w') : RequestBounded w' := by
  have hcurrent := h.records _ w.holds_current
  cases hc with
  | stay => exact h
  | other store => exact h.other store
  | openCycle state save _ _ _ =>
    have hnew : (Stored.mk state w.current.request).request < w.nextRequest := hcurrent
    exact RequestBounded.save h hnew save
  | request k state save _ _ _ =>
    have hnext := Nat.lt_succ_self w.nextRequest
    have hmore : w.Carries (fun stored ↦ stored.request < w.nextRequest + 1)
        fun step ↦ step.Serves ∧ ∀ n ∈ step.answered, n < w.nextRequest + 1 :=
      h.mono (fun _ hs ↦ hs.trans hnext)
        fun _ hs ↦ ⟨hs.1, fun n hn ↦ (hs.2 n hn).trans hnext⟩
    have hnew : (Stored.mk state w.nextRequest).request < w.nextRequest + 1 := hnext
    have hsaved := hmore.save hnew save
    exact ⟨hsaved.records, hsaved.instances⟩
  | begin i step _ _ hstep =>
    obtain ⟨hserves, hnone⟩ := serves_begin hstep
    refine h.setInstance i ⟨hserves, fun n hn ↦ ?_⟩
    rw [hnone] at hn
    cases hn
  | stop i step hplace =>
    have hi := h.instances i
    rw [hplace] at hi
    exact h.setInstance i hi
  | round i step a rest hooked readFails save _ place hplace hrem hheld hbusy hevent hnext =>
    have hi := h.instances i
    rw [hplace] at hi
    have hworld : RequestBounded
        { w with store := (scrubAttempt config hooked readFails w.store a).store } := h.other _
    have hnew : (roundStored w step a (scrubAttempt config hooked readFails w.store a)).request <
        w.nextRequest := hcurrent
    have hsaved := RequestBounded.save hworld hnew save
    rcases hnext with rfl | ⟨rfl, rfl⟩
    · exact hsaved.setInstance i trivial
    · refine hsaved.setInstance i ⟨serves_advance hi.1 hrem _ _, fun n hn ↦ ?_⟩
      change n ∈ step.target.map fun _ ↦ w.current.request at hn
      obtain ⟨_, -, rfl⟩ := Option.mem_map.mp hn
      exact hcurrent
  | close i step hplace =>
    have hi := h.instances i
    rw [hplace] at hi
    exact h.setInstance i hi
  | complete i step now save place hplace ht hkeys hphase hheld hnext =>
    have hi := h.instances i
    rw [hplace] at hi
    have hnew : (Stored.mk (step.held.complete now) w.current.request).request < w.nextRequest :=
      hcurrent
    have hsaved := RequestBounded.save h hnew save
    rcases hnext with rfl | ⟨rfl, rfl⟩
    · exact hsaved.setInstance i trivial
    · exact hsaved.setInstance i hi
  | leave i step hplace => exact h.setInstance i trivial
  | abort i => exact h.setInstance i trivial
  | crash stored hs => exact h.crash hs

section

variable (n : Nat) (key : Digest)

/-- The event reports that the request has been answered. -/
def ScrubEvent.Reports : ScrubEvent → Prop
  | .returned _ (some m) _ => m = n
  | _ => False

instance (event : ScrubEvent) : Decidable (event.Reports n) := by
  unfold ScrubEvent.Reports
  split <;> infer_instance

/-- The steps that report the answer. -/
def reportsOf (steps : List ScrubStep) : List ScrubStep :=
  steps.filter fun step ↦ decide (step.event.Reports n)

/-- A step of the list has answered the request with this status. -/
def AnsweredWith (steps : List ScrubStep) (status : ScrubStatus) : Prop :=
  ∃ step ∈ steps, step.event = .answered key n status

/-- The step of an instance has the answer and has not yet returned. -/
def Instance.Answers (place : Instance) : Prop :=
  ∃ step, place.step? = some step ∧ step.answered = some n

/-- What holds of a root from the return of a request on, when these steps have been taken. -/
structure RequestTracked (steps : List ScrubStep) (w : ScrubWorld) : Prop where
  bounded : RequestBounded w
  used : n < w.nextRequest
  /-- The request is in a record with its own key, or it is not there. -/
  own : ∀ stored, w.Holds stored → stored.request = n →
    stored.record.targetEntry = none ∨ stored.record.targetEntry = some key
  /-- Until it is answered, it is in every record that a crash may leave. -/
  pending : (∀ status, ¬ AnsweredWith n key steps status) →
    ∀ stored, w.Holds stored → stored.request = n ∧ stored.record.targetEntry = some key
  /-- Once a step has its answer for good, no record holds it any more. -/
  settled : (reportsOf n steps ≠ [] ∨ ∃ i, (w.instances i).Answers n) →
    ∀ stored, w.Holds stored → stored.request = n → stored.record.targetEntry = none
  unique : ∀ i j, (w.instances i).Answers n → (w.instances j).Answers n → i = j
  unreported : ∀ i, (w.instances i).Answers n → reportsOf n steps = []
  once : (reportsOf n steps).length ≤ 1
  status : ∀ i step, (w.instances i).step? = some step → step.answered = some n →
    ∃ status, step.held.lastRequestStatus = some status ∧ AnsweredWith n key steps status

variable {n key}

private theorem AnsweredWith.append {steps : List ScrubStep} {status : ScrubStatus}
    (h : AnsweredWith n key steps status) (more : List ScrubStep) :
    AnsweredWith n key (steps ++ more) status := by
  obtain ⟨step, hs, he⟩ := h
  exact ⟨step, List.mem_append_left _ hs, he⟩

private theorem reportsOf_append_quiet (steps : List ScrubStep) {step : ScrubStep}
    (h : ¬ step.event.Reports n) : reportsOf n (steps ++ [step]) = reportsOf n steps := by
  rw [reportsOf, List.filter_append, List.filter_cons_of_neg (by simpa using h), List.filter_nil,
    List.append_nil]
  rfl

/-- Steps that neither answer nor report the request, and change no record's part of it. -/
theorem RequestTracked.keep {steps : List ScrubStep} {w w' : ScrubWorld} {step : ScrubStep}
    (h : RequestTracked n key steps w) (hstep : ¬ step.event.Reports n) (hb : RequestBounded w')
    (hnext : w.nextRequest ≤ w'.nextRequest)
    (hrec : ∀ stored', w'.Holds stored' →
      (∃ stored, w.Holds stored ∧ stored'.request = stored.request ∧
        stored'.record.targetEntry = stored.record.targetEntry) ∨
      stored'.request ≠ n ∧ ∃ status, AnsweredWith n key steps status)
    (hinst : ∀ j st', (w'.instances j).step? = some st' → st'.answered = some n →
      ∃ st, (w.instances j).step? = some st ∧ st.answered = some n ∧
        st'.held.lastRequestStatus = st.held.lastRequestStatus) :
    RequestTracked n key (steps ++ [step]) w' := by
  have hreports := reportsOf_append_quiet steps hstep
  have hanswers : ∀ j, (w'.instances j).Answers n → (w.instances j).Answers n := by
    rintro j ⟨st', hst', ha⟩
    obtain ⟨st, hst, ha', -⟩ := hinst j st' hst' ha
    exact ⟨st, hst, ha'⟩
  constructor
  case bounded => exact hb
  case used => exact h.used.trans_le hnext
  case own =>
    intro stored' hs' hn
    rcases hrec stored' hs' with ⟨stored, hs, hr, ht⟩ | ⟨hne, -⟩
    · rw [ht]
      exact h.own stored hs (hr ▸ hn)
    · exact absurd hn hne
  case pending =>
    intro hno stored' hs'
    have hno' : ∀ status, ¬ AnsweredWith n key steps status := fun status ha ↦
      hno status (ha.append _)
    rcases hrec stored' hs' with ⟨stored, hs, hr, ht⟩ | ⟨-, status, ha⟩
    · rw [hr, ht]
      exact h.pending hno' stored hs
    · exact absurd ha (hno' status)
  case settled =>
    intro hdone stored' hs' hn
    rcases hrec stored' hs' with ⟨stored, hs, hr, ht⟩ | ⟨hne, -⟩
    · rw [ht]
      refine h.settled ?_ stored hs (hr ▸ hn)
      rw [hreports] at hdone
      exact hdone.imp id fun ⟨i, hi⟩ ↦ ⟨i, hanswers i hi⟩
    · exact absurd hn hne
  case unique => exact fun i j hi hj ↦ h.unique i j (hanswers i hi) (hanswers j hj)
  case unreported => exact fun i hi ↦ hreports.trans (h.unreported i (hanswers i hi))
  case once => exact hreports ▸ h.once
  case status =>
    intro i st' hst' ha
    obtain ⟨st, hst, ha', hstatus⟩ := hinst i st' hst' ha
    obtain ⟨status, hs, hw⟩ := h.status i st hst ha'
    exact ⟨status, hstatus.trans hs, hw.append _⟩

/-- The step that returns with the answer is the only one that has it. -/
theorem RequestTracked.report {steps : List ScrubStep} {w : ScrubWorld} {step : ScrubStep} {i : Nat}
    (h : RequestTracked n key steps w) (hi : (w.instances i).Answers n)
    (hstep : step.event.Reports n) (hb : RequestBounded (w.setInstance i .outside)) :
    RequestTracked n key (steps ++ [step]) (w.setInstance i .outside) := by
  have hreports : reportsOf n (steps ++ [step]) = [step] := by
    have hnone := h.unreported i hi
    unfold reportsOf at hnone ⊢
    rw [List.filter_append, hnone, List.nil_append,
      List.filter_cons_of_pos (by simpa using hstep), List.filter_nil]
  have hgone : ∀ j, ¬ ((w.setInstance i .outside).instances j).Answers n := by
    rintro j ⟨st, hst, ha⟩
    rw [ScrubWorld.instances_setInstance] at hst
    split at hst
    · cases hst
    · next hne => exact hne (h.unique j i ⟨st, hst, ha⟩ hi)
  constructor
  case bounded => exact hb
  case used => exact h.used
  case own => exact h.own
  case pending =>
    intro hno
    obtain ⟨st, hst, ha⟩ := hi
    obtain ⟨status, -, hw⟩ := h.status i st hst ha
    exact absurd (hw.append _) (hno status)
  case settled => exact fun _ ↦ h.settled (.inr ⟨i, hi⟩)
  case unique => exact fun j _ hj ↦ absurd hj (hgone j)
  case unreported => exact fun j hj ↦ absurd hj (hgone j)
  case once =>
    rw [hreports]
    exact le_rfl
  case status => exact fun j st hst ha ↦ absurd ⟨st, hst, ha⟩ (hgone j)

private theorem reports_returned {cycle : Nat} {answered : Option Nat} {report : ScrubStepReport} :
    (ScrubEvent.returned cycle answered report).Reports n ↔ answered = some n := by
  cases answered with
  | none => exact ⟨fun h ↦ h.elim, fun h ↦ (by cases h)⟩
  | some m => exact ⟨fun h ↦ congrArg some h, fun h ↦ Option.some.inj h⟩

private theorem step?_setInstance {w : ScrubWorld} {i j : Nat} {place : Instance} {st : StepState}
    (h : ((w.setInstance i place).instances j).step? = some st) :
    j = i ∧ place.step? = some st ∨ (w.instances j).step? = some st := by
  rw [ScrubWorld.instances_setInstance] at h
  split at h
  · next he => exact .inl ⟨he, h⟩
  · exact .inr h

/-- Moving an instance with the same step, or with one that has no answer to this request. -/
theorem RequestTracked.move {steps : List ScrubStep} {w : ScrubWorld} {step : ScrubStep} {i : Nat}
    {place : Instance} (h : RequestTracked n key steps w) (hstep : ¬ step.event.Reports n)
    (hb : RequestBounded (w.setInstance i place))
    (hplace : ∀ st', place.step? = some st' → st'.answered = some n →
      (w.instances i).step? = some st') :
    RequestTracked n key (steps ++ [step]) (w.setInstance i place) := by
  refine h.keep hstep hb le_rfl (fun stored hs ↦ .inl ⟨stored, hs, rfl, rfl⟩) ?_
  intro j st' hst' ha
  rcases step?_setInstance hst' with ⟨rfl, hp⟩ | hj
  · exact ⟨st', hplace st' hp ha, ha, rfl⟩
  · exact ⟨st', hj, ha, rfl⟩

/-- A write that keeps the request as it is in the current record, with a move to a step without
an answer to it. -/
theorem RequestTracked.store {steps : List ScrubStep} {w : ScrubWorld} {step : ScrubStep}
    {i : Nat} {place : Instance} {new : Stored} {outcome : SaveOutcome} (store : RankState)
    (h : RequestTracked n key steps w) (hstep : ¬ step.event.Reports n)
    (hb : RequestBounded (({ w with store := store }.save new outcome).setInstance i place))
    (hnew : outcome ≠ .failsBeforeRename → new.request = w.current.request ∧
        new.record.targetEntry = w.current.record.targetEntry ∨
      new.request ≠ n ∧ ∃ status, AnsweredWith n key steps status)
    (hplace : ∀ st', place.step? = some st' → st'.answered = some n →
      ∃ st, (w.instances i).step? = some st ∧ st.answered = some n ∧
        st'.held.lastRequestStatus = st.held.lastRequestStatus) :
    RequestTracked n key (steps ++ [step])
      (({ w with store := store }.save new outcome).setInstance i place) := by
  refine h.keep hstep hb ?_ ?_ ?_
  · change w.nextRequest ≤ ({ w with store := store }.save new outcome).nextRequest
    rw [ScrubWorld.nextRequest_save]
  · intro stored' hs'
    change ({ w with store := store }.save new outcome).Holds stored' at hs'
    by_cases ho : outcome = .failsBeforeRename
    · subst ho
      exact .inl ⟨stored', hs', rfl, rfl⟩
    · rcases hs'.of_save with rfl | hs'
      · exact (hnew ho).imp (fun hkeep ↦ ⟨w.current, w.holds_current, hkeep⟩) id
      · exact .inl ⟨stored', hs', rfl, rfl⟩
  · intro j st' hst' ha
    rcases step?_setInstance hst' with ⟨rfl, hp⟩ | hj
    · exact hplace st' hp ha
    · rw [ScrubWorld.instances_save] at hj
      exact ⟨st', hj, ha, rfl⟩

/-- A round that answers the request: nothing had answered it for good, and now it has. -/
theorem RequestTracked.answer {steps : List ScrubStep} {w : ScrubWorld} {step : ScrubStep}
    {i : Nat} {place : Instance} {new : Stored} {outcome : SaveOutcome} {status : ScrubStatus}
    (store : RankState) (h : RequestTracked n key steps w)
    (hstep : step.event = .answered key n status)
    (hb : RequestBounded (({ w with store := store }.save new outcome).setInstance i place))
    (hcurrent : w.current.request = n ∧ w.current.record.targetEntry = some key)
    (hnew : new.record.targetEntry = none)
    (hplace : place = .outside ∨ outcome = .saved ∧ ∀ st, place.step? = some st →
      st.held.lastRequestStatus = some status) :
    RequestTracked n key (steps ++ [step])
      (({ w with store := store }.save new outcome).setInstance i place) := by
  have hquiet : ¬ step.event.Reports n := by
    rw [hstep]
    exact fun hr ↦ hr
  have hunsettled : reportsOf n steps = [] ∧ ∀ j, ¬ (w.instances j).Answers n := by
    have hno : ¬ (reportsOf n steps ≠ [] ∨ ∃ j, (w.instances j).Answers n) := by
      intro hdone
      have ht := h.settled hdone _ w.holds_current hcurrent.1
      rw [hcurrent.2] at ht
      cases ht
    exact ⟨not_not.mp fun hr ↦ hno (.inl hr), fun j hj ↦ hno (.inr ⟨j, hj⟩)⟩
  have hreports : reportsOf n (steps ++ [step]) = [] :=
    (reportsOf_append_quiet steps hquiet).trans hunsettled.1
  have hanswered : AnsweredWith n key (steps ++ [step]) status :=
    ⟨step, List.mem_append_right _ List.mem_cons_self, hstep⟩
  have honly : ∀ j st,
      ((({ w with store := store }.save new outcome).setInstance i place).instances j).step? =
        some st → st.answered = some n → j = i ∧ place.step? = some st := by
    intro j st hst ha
    rcases step?_setInstance hst with hi | hj
    · exact hi
    · rw [ScrubWorld.instances_save] at hj
      exact absurd ⟨st, hj, ha⟩ (hunsettled.2 j)
  have hholds : ∀ stored,
      (({ w with store := store }.save new outcome).setInstance i place).Holds stored →
        stored = new ∨ w.Holds stored := fun stored hs ↦
    ScrubWorld.Holds.of_save (w := { w with store := store }) hs
  constructor
  case bounded => exact hb
  case used =>
    change n < ({ w with store := store }.save new outcome).nextRequest
    rw [ScrubWorld.nextRequest_save]
    exact h.used
  case own =>
    intro stored hs hn
    rcases hholds stored hs with rfl | hs
    · exact .inl hnew
    · exact h.own stored hs hn
  case pending => exact fun hno ↦ absurd hanswered (hno status)
  case settled =>
    intro hdone stored hs hn
    rcases hdone with hdone | ⟨j, st, hst, ha⟩
    · exact absurd hreports hdone
    · obtain ⟨rfl, hp⟩ := honly j st hst ha
      rcases hplace with rfl | ⟨rfl, -⟩
      · cases hp
      · -- a write that returned leaves only the new record
        rcases hs with rfl | hs
        · exact hnew
        · cases hs
  case unique =>
    rintro j k ⟨st, hst, ha⟩ ⟨st', hst', ha'⟩
    exact (honly j st hst ha).1.trans (honly k st' hst' ha').1.symm
  case unreported => exact fun _ _ ↦ hreports
  case once =>
    rw [hreports]
    exact Nat.zero_le 1
  case status =>
    intro j st hst ha
    obtain ⟨rfl, hp⟩ := honly j st hst ha
    rcases hplace with rfl | ⟨-, hstatus⟩
    · cases hp
    · exact ⟨status, hstatus st hp, hanswered⟩

private theorem not_reports_quiet : ¬ ScrubEvent.quiet.Reports n := fun h ↦ h

/-- An answered request leaves the record; a new one has another number. -/
theorem RequestTracked.answered_of_current {steps : List ScrubStep} {w : ScrubWorld}
    (h : RequestTracked n key steps w)
    (hcurrent : w.current.request ≠ n ∨ w.current.record.targetEntry = none) :
    ∃ status, AnsweredWith n key steps status := by
  by_contra hno
  rw [not_exists] at hno
  obtain ⟨hr, ht⟩ := h.pending hno _ w.holds_current
  rcases hcurrent with hc | hc
  · exact hc hr
  · rw [ht] at hc
    cases hc

private theorem RequestTracked.request {steps : List ScrubStep} {w : ScrubWorld} {step : ScrubStep}
    {k : Digest} {state : ScrubRecord} (save : SaveOutcome) (h : RequestTracked n key steps w)
    (hstep : ¬ step.event.Reports n) (hstate : requestScrub w.current.record k = .ok state)
    (hb : RequestBounded
      { w.save ⟨state, w.nextRequest⟩ save with nextRequest := w.nextRequest + 1 }) :
    RequestTracked n key (steps ++ [step])
      { w.save ⟨state, w.nextRequest⟩ save with nextRequest := w.nextRequest + 1 } := by
  have hfree : w.current.record.targetEntry = none := by
    unfold requestScrub at hstate
    split at hstate
    · cases hstate
    · next hfree => exact not_not.mp hfree
  refine h.keep hstep hb (Nat.le_succ _) (fun stored hs ↦ ?_) fun j st hst ha ↦ ⟨st, ?_, ha, rfl⟩
  · have hs' : (w.save ⟨state, w.nextRequest⟩ save).Holds stored := hs
    rcases hs'.of_save with rfl | hs'
    · exact .inr ⟨h.used.ne', h.answered_of_current (.inr hfree)⟩
    · exact .inl ⟨stored, hs', rfl, rfl⟩
  · rw [← ScrubWorld.instances_save w ⟨state, w.nextRequest⟩ save]
    exact hst

/-- A step with a target that finds its copy of the record while this request is in it has the key
of the request. -/
theorem RequestTracked.own_of_round {steps : List ScrubStep} {w : ScrubWorld} {i : Nat}
    {st : StepState} {a : Digest} {rest : List Digest} (h : RequestTracked n key steps w)
    (hplace : w.instances i = .looping st) (hrem : st.remaining = a :: rest)
    (hheld : w.current.record = st.held) (htn : st.target ≠ none) (hreq : w.current.request = n) :
    a = key ∧ w.current.record.targetEntry = some key := by
  have hserves := h.bounded.instances i
  rw [hplace] at hserves
  obtain ⟨htarget, hkey⟩ := hserves.1.held_target hrem
  have hcurrent : w.current.record.targetEntry = some a := by
    rw [hheld, htarget]
    exact hkey htn
  rcases h.own _ w.holds_current hreq with hnone | hsome
  · rw [hnone] at hcurrent
    cases hcurrent
  · rw [hsome] at hcurrent
    exact ⟨(Option.some.inj hcurrent).symm, hsome⟩

/-- A round of a step: it answers this request, or it is not about it. -/
theorem RequestTracked.round {config : StoreConfig} {steps : List ScrubStep} {w : ScrubWorld}
    {step : ScrubStep} {i : Nat} {st : StepState} {a : Digest} {rest : List Digest}
    {hooked readFails : Bool} {save : SaveOutcome} {place : Instance}
    (h : RequestTracked n key steps w) (hplace : w.instances i = .looping st)
    (hrem : st.remaining = a :: rest) (hheld : w.current.record = st.held)
    (hevent : step.event = .attempted st.held.cycle a
          (scrubAttempt config hooked readFails w.store a).status ∧
          (st.target = none ∨ save = .failsBeforeRename) ∨
        step.event = .answered a w.current.request
          (scrubAttempt config hooked readFails w.store a).status ∧ st.target ≠ none ∧
          save ≠ .failsBeforeRename)
    (hnext : place = .outside ∨ save = .saved ∧ place = .looping
      { st.advance a (scrubAttempt config hooked readFails w.store a) with
        answered := st.target.map fun _ ↦ w.current.request })
    (hb : RequestBounded
      (({ w with store := (scrubAttempt config hooked readFails w.store a).store }.save
        (roundStored w st a (scrubAttempt config hooked readFails w.store a)) save
        ).setInstance i place)) :
    RequestTracked n key (steps ++ [step])
      (({ w with store := (scrubAttempt config hooked readFails w.store a).store }.save
        (roundStored w st a (scrubAttempt config hooked readFails w.store a)) save
        ).setInstance i place) := by
  have hquiet : ¬ step.event.Reports n := by
    rcases hevent with ⟨he, -⟩ | ⟨he, -⟩ <;> rw [he] <;> exact fun hr ↦ hr
  have hstored := roundStored_target w st a (scrubAttempt config hooked readFails w.store a)
  by_cases hn : st.target ≠ none ∧ save ≠ .failsBeforeRename ∧ w.current.request = n
  · obtain ⟨htn, hsave, hreq⟩ := hn
    obtain ⟨hown, hcurrent⟩ := h.own_of_round hplace hrem hheld htn hreq
    have he : step.event = .answered a w.current.request
        (scrubAttempt config hooked readFails w.store a).status := by
      rcases hevent with ⟨-, hnone | hfails⟩ | ⟨he, -⟩
      · exact absurd hnone htn
      · exact absurd hfails hsave
      · exact he
    rw [hown, hreq] at he
    refine h.answer _ he hb ⟨hreq, hcurrent⟩ (hstored.trans (if_neg htn)) (hnext.imp id ?_)
    rintro ⟨hsaved, rfl⟩
    refine ⟨hsaved, fun st' hst' ↦ ?_⟩
    cases hst'
    rw [StepState.advance, if_neg htn, hown]
  · refine h.store _ hquiet hb (fun hsave ↦ ?_) fun st' hst' ha ↦ ?_
    · by_cases htn : st.target = none
      · refine .inl ⟨rfl, ?_⟩
        rw [hstored, if_pos htn, hheld]
      · have hne : w.current.request ≠ n := fun hreq ↦ hn ⟨htn, hsave, hreq⟩
        exact .inr ⟨hne, h.answered_of_current (.inl hne)⟩
    · rcases hnext with rfl | ⟨hsaved, rfl⟩
      · cases hst'
      · cases hst'
        change (st.target.map fun _ ↦ w.current.request) = some n at ha
        obtain ⟨t, ht, hreq⟩ := Option.map_eq_some_iff.mp ha
        refine absurd ⟨?_, ?_, hreq⟩ hn
        · rw [ht]
          exact Option.some_ne_none t
        · rw [hsaved]
          exact SaveOutcome.noConfusion

private theorem RequestTracked.change {config : StoreConfig} {steps : List ScrubStep}
    {w w' : ScrubWorld} {step : ScrubStep} (h : RequestTracked n key steps w)
    (hc : ScrubChange config w step.event w') : RequestTracked n key (steps ++ [step]) w' := by
  have hb := RequestBounded.change h.bounded hc
  obtain ⟨before, action, event, after⟩ := step
  dsimp only at hc
  cases hc with
  | stay =>
    exact h.keep not_reports_quiet hb le_rfl (fun stored hs ↦ .inl ⟨stored, hs, rfl, rfl⟩)
      fun j st hst ha ↦ ⟨st, hst, ha, rfl⟩
  | other store =>
    exact h.keep not_reports_quiet hb le_rfl (fun stored hs ↦ .inl ⟨stored, hs, rfl, rfl⟩)
      fun j st hst ha ↦ ⟨st, hst, ha, rfl⟩
  | openCycle state save _ hstate hevent =>
    have htarget : state.targetEntry = w.current.record.targetEntry := by
      unfold startCycle at hstate
      split at hstate
      · cases hstate
        rfl
      · cases hstate
    refine h.keep ?_ hb ?_ (fun stored hs ↦ .inl ?_) fun j st hst ha ↦ ⟨st, ?_, ha, rfl⟩
    · rcases hevent with rfl | ⟨rfl, -⟩ <;> exact fun hr ↦ hr
    · rw [ScrubWorld.nextRequest_save]
    · rcases hs.of_save with rfl | hs
      · exact ⟨w.current, w.holds_current, rfl, htarget⟩
      · exact ⟨stored, hs, rfl, rfl⟩
    · rw [ScrubWorld.instances_save] at hst
      exact hst
  | request k state save _ hstate hevent =>
    refine h.request save ?_ hstate hb
    rcases hevent with ⟨rfl, -⟩ | rfl <;> exact fun hr ↦ hr
  | begin i st _ _ hstep =>
    refine h.move not_reports_quiet hb fun st' hst' ha ↦ ?_
    cases hst'
    rw [(serves_begin hstep).2] at ha
    cases ha
  | stop i st hplace =>
    refine h.move not_reports_quiet hb fun st' hst' _ ↦ ?_
    rw [hplace]
    exact hst'
  | round i st a rest hooked readFails save _ place hplace hrem hheld hbusy hevent hnext =>
    exact h.round hplace hrem hheld hevent hnext hb
  | close i st hplace =>
    refine h.move not_reports_quiet hb fun st' hst' _ ↦ ?_
    rw [hplace]
    exact hst'
  | complete i st now save place hplace ht hkeys hphase hheld hnext =>
    refine h.store w.store not_reports_quiet hb (fun _ ↦ .inl ⟨rfl, ?_⟩) fun st' hst' ha ↦ ?_
    · rw [hheld]
      rfl
    · rcases hnext with rfl | ⟨-, rfl⟩
      · cases hst'
      · cases hst'
        refine ⟨st, ?_, ha, rfl⟩
        rw [hplace]
        rfl
  | leave i st hplace =>
    by_cases ha : st.answered = some n
    · refine h.report ⟨st, ?_, ha⟩ (reports_returned.mpr ha) hb
      rw [hplace]
      rfl
    · exact h.move (fun hr ↦ ha (reports_returned.mp hr)) hb fun st' hst' _ ↦ (by cases hst')
  | abort i => exact h.move not_reports_quiet hb fun st' hst' _ ↦ (by cases hst')
  | crash stored hs =>
    refine h.keep not_reports_quiet hb le_rfl (fun stored' hs' ↦ .inl ⟨stored, hs, ?_⟩)
      fun j st hst _ ↦ (by cases hst)
    rcases hs' with rfl | hs'
    · exact ⟨rfl, rfl⟩
    · cases hs'

end

/-! ### Every run -/

section

variable {config : StoreConfig} {n : Nat} {key : Digest}

/-- What a step may make of the record it finds: move the cursor, answer its target, or end the
cycle. -/
inductive StepState.Writes (step : StepState) : ScrubRecord → Prop where
  | cursor (key : Digest) (h : step.target = none) :
      Writes step { step.held with cursor := some key }
  | answer (status : ScrubStatus) (h : step.target ≠ none) :
      Writes step { step.held with targetEntry := none, lastRequestStatus := some status }
  | complete (now : Nat) (h : step.target = none) : Writes step (step.held.complete now)

end

end SpoolCache.Store
