import SpoolCache.Store.Scrub

/-!
# What a completed scrub cycle covers

The only record of progress is one cursor. A step picks keys above it in one section and moves it
in later ones, while requests, other scrubbers and pins intervene. Every key at or below the
cursor of a cycle has been handled in that cycle, unless its file was not there all the time; so
when a cycle completes, nothing was skipped.
-/

namespace SpoolCache.Store

open SpoolCache.Base

/-! ### Selection -/

private theorem mem_take_insertionSort_or_lt {keys : List Digest} (hn : keys.Nodup) (n : Nat)
    {key : Digest} (h : key ∈ keys) :
    key ∈ (keys.insertionSort (· ≤ ·)).take n ∨
      ((keys.insertionSort (· ≤ ·)).take n).length = n ∧
        ∀ a ∈ (keys.insertionSort (· ≤ ·)).take n, a < key := by
  have hperm := List.perm_insertionSort (· ≤ ·) keys
  have hsorted := List.pairwise_insertionSort (· ≤ ·) keys
  generalize keys.insertionSort (· ≤ ·) = sorted at hperm hsorted ⊢
  have hnd := hperm.symm.nodup hn
  have hm : key ∈ sorted := hperm.symm.subset h
  rw [← List.take_append_drop n sorted] at hm hsorted hnd
  rcases List.mem_append.mp hm with hm | hm
  · exact .inl hm
  · refine .inr ⟨?_, fun a ha ↦ ?_⟩
    · have hlen := List.length_pos_of_mem hm
      rw [List.length_drop] at hlen
      rw [List.length_take]
      omega
    · have hle := (List.pairwise_append.mp hsorted).2.2 a ha key hm
      refine lt_of_le_of_ne hle ?_
      rintro rfl
      exact (List.nodup_append.mp hnd).2.2 a ha a hm rfl

private theorem pairwise_lt_take_insertionSort {keys : List Digest} (hn : keys.Nodup) (n : Nat) :
    ((keys.insertionSort (· ≤ ·)).take n).Pairwise (· < ·) := by
  have hnd := (List.perm_insertionSort (· ≤ ·) keys).symm.nodup hn
  have hsorted := List.pairwise_insertionSort (· ≤ ·) keys
  exact ((hsorted.and hnd).imp fun h ↦ lt_of_le_of_ne h.1 h.2).sublist (List.take_sublist _ _)

/-- A step that does not serve a request picks its keys in order, and picks a present key above
the cursor or only smaller ones. -/
theorem selectKeys_covers {s : RankState} {r : ScrubRecord} {n : Nat} (hn : 0 < n)
    (ht : r.targetEntry = none) {key : Digest} (hk : key ∈ s.files.keys) (ha : After r.cursor key) :
    selectKeys s r n ≠ [] ∧ (selectKeys s r n).Pairwise (· < ·) ∧
      (key ∈ selectKeys s r n ∨ ∀ a ∈ selectKeys s r n, a < key) := by
  unfold selectKeys
  rw [ht]
  dsimp only
  have hnd := (s.files.nodup_keys).filter fun key ↦ decide (After r.cursor key)
  have hmem : key ∈ s.files.keys.filter fun key ↦ decide (After r.cursor key) :=
    List.mem_filter.mpr ⟨hk, decide_eq_true ha⟩
  refine ⟨?_, pairwise_lt_take_insertionSort hnd n, ?_⟩
  · intro he
    rcases mem_take_insertionSort_or_lt hnd n hmem with h | ⟨h, -⟩
    · rw [he] at h
      cases h
    · rw [he, List.length_nil] at h
      omega
  · exact (mem_take_insertionSort_or_lt hnd n hmem).imp id And.right

/-! ### The invariant -/

section

variable (cycle : Nat) (key : Digest)

/-- A step of the cycle has authenticated or quarantined the key. -/
def Handled (steps : List ScrubStep) : Prop :=
  ∃ step ∈ steps, ∃ status, step.event = .attempted cycle key status ∧ status ≠ .absent

variable (handled : Prop)

/-- A cursor of the cycle that has reached the key has handled it. -/
def Covers (r : ScrubRecord) : Prop :=
  r.cycle = cycle → r.phase = .files → ¬ After r.cursor key → handled

/-- A step of the cycle has the key among those it will reach, or has only smaller ones. -/
def Reaches (step : StepState) : Prop :=
  After step.held.cursor key ∧ step.keys ≠ [] ∧ step.remaining.Pairwise (· < ·) ∧
    (key ∈ step.remaining ∨ ∀ a ∈ step.remaining, a < key)

/-- What a step knows of the key. -/
structure StepCovers (step : StepState) : Prop where
  held : Covers cycle key handled step.held
  reaches : step.held.cycle = cycle → step.held.phase = .files → step.target = none →
    handled ∨ Reaches key step
  completed : step.completed = true → step.held.cycle = cycle → handled

/-- What holds of a root in the cycle. -/
abbrev CycleCovers (w : ScrubWorld) : Prop :=
  w.Carries (fun stored ↦ Covers cycle key handled stored.record) (StepCovers cycle key handled)

variable {cycle key handled}

private theorem Covers.mono {handled' : Prop} {r : ScrubRecord} (hh : handled → handled')
    (h : Covers cycle key handled r) : Covers cycle key handled' r :=
  fun hc hp ha ↦ hh (h hc hp ha)

private theorem StepCovers.mono {handled' : Prop} {step : StepState} (hh : handled → handled')
    (h : StepCovers cycle key handled step) : StepCovers cycle key handled' step :=
  ⟨h.held.mono hh, fun hc hp ht ↦ (h.reaches hc hp ht).imp hh id, fun hd hc ↦ hh (h.completed hd hc)⟩

private theorem CycleCovers.weaken {handled' : Prop} {w : ScrubWorld} (hh : handled → handled')
    (h : CycleCovers cycle key handled w) : CycleCovers cycle key handled' w :=
  h.mono (fun _ ↦ Covers.mono hh) fun _ ↦ StepCovers.mono hh

/-- A file that is there is never found absent. -/
theorem scrubAttempt_status_ne_absent {config : StoreConfig} {hooked readFails : Bool}
    {s : RankState} (hbusy : busy s key = false) (hk : key ∈ s.files.keys) :
    (scrubAttempt config hooked readFails s key).status ≠ .absent := by
  intro habsent
  have hsound := sound_scrubAttempt config hooked readFails hbusy
  rw [habsent] at hsound
  exact hsound.1 hk

/-- An attempt that a step shows is on a key that is not pinned, and its status is sound. -/
theorem ScrubChange.sound {config : StoreConfig} {w w' : ScrubWorld} {cycle : Nat} {key : Digest}
    {status : ScrubStatus} (hc : ScrubChange config w (.attempted cycle key status) w') :
    busy w.store key = false ∧ status.Sound config key w.store w'.store := by
  cases hc with
  | openCycle _ _ _ _ hevent => rcases hevent with hevent | ⟨hevent, -⟩ <;> cases hevent
  | request _ _ _ _ _ hevent => rcases hevent with ⟨hevent, -⟩ | hevent <;> cases hevent
  | round i step a rest hooked readFails save _ place hplace hrem hheld hbusy hevent hnext =>
    rcases hevent with ⟨hevent, -⟩ | ⟨hevent, -⟩
    · cases hevent
      refine ⟨hbusy, ?_⟩
      change ScrubStatus.Sound config key w.store (ScrubWorld.save _ _ save).store _
      rw [ScrubWorld.store_save]
      exact sound_scrubAttempt config hooked readFails hbusy
    · cases hevent

/-! ### One action -/

private theorem CycleCovers.of_handled (h : handled) (w : ScrubWorld) :
    CycleCovers cycle key handled w := by
  have hstep : ∀ step, StepCovers cycle key handled step := fun _ ↦
    ⟨fun _ _ _ ↦ h, fun _ _ _ ↦ .inl h, fun _ _ ↦ h⟩
  have hno : ∀ place : Instance, place.All fun _ ↦ True := by
    intro place
    cases place <;> exact trivial
  exact ⟨fun _ _ _ _ _ ↦ h, fun i ↦ (hno (w.instances i)).mono fun step _ ↦ hstep step⟩

private theorem stepCovers_begin {w : ScrubWorld} (h : CycleCovers cycle key handled w)
    (hpresent : key ∈ w.store.files.keys) {itemBudget payloadBudgetBytes : Nat} {step : StepState}
    (hstep : beginStep w.store w.current.record itemBudget payloadBudgetBytes = .ok step) :
    StepCovers cycle key handled step := by
  unfold beginStep at hstep
  split at hstep
  · cases hstep
  · next hitems =>
    split at hstep
    · cases hstep
    · obtain ⟨state, hload, hstep⟩ := bind_ok hstep
      cases hstep
      rw [load_ok hload]
      have hrec := h.records _ w.holds_current
      refine ⟨hrec, fun hc hp ht ↦ ?_, fun hd ↦ (by cases hd)⟩
      by_cases ha : After w.current.record.cursor key
      · have hpos : 0 < itemBudget := by omega
        obtain ⟨hne, hsorted, hcover⟩ := selectKeys_covers hpos ht hpresent ha
        exact .inr ⟨ha, hne, hsorted, hcover⟩
      · exact .inl (hrec hc hp ha)

/-- A round on another key leaves the key ahead of the cursor. -/
theorem stepCovers_advance {step : StepState} {a : Digest} {rest : List Digest}
    (attempt : ScrubAttempt) (h : StepCovers cycle key handled step) (hh : ¬ handled)
    (hrem : step.remaining = a :: rest)
    (hne : step.held.cycle = cycle → step.target = none → a ≠ key) (answered : Option Nat) :
    StepCovers cycle key handled { step.advance a attempt with answered := answered } := by
  have hcycle : (step.advance a attempt).held.cycle = step.held.cycle := by
    unfold StepState.advance
    dsimp only
    split <;> rfl
  have hphase : (step.advance a attempt).held.phase = step.held.phase := by
    unfold StepState.advance
    dsimp only
    split <;> rfl
  cases ht : step.target with
  | some t =>
    have hcursor : (step.advance a attempt).held.cursor = step.held.cursor := by
      unfold StepState.advance
      dsimp only
      rw [if_neg (by rw [ht]; exact Option.some_ne_none t)]
    refine ⟨fun hc hp ha ↦ h.held (hcycle ▸ hc) (hphase ▸ hp) (hcursor ▸ ha), ?_, ?_⟩
    · intro _ _ hnone
      change step.target = none at hnone
      rw [ht] at hnone
      cases hnone
    · exact fun hd hc ↦ h.completed hd (hcycle ▸ hc)
  | none =>
    have hcursor : (step.advance a attempt).held.cursor = some a := by
      unfold StepState.advance
      dsimp only
      rw [if_pos ht]
    have hahead : step.held.cycle = cycle → step.held.phase = .files →
        a < key ∧ rest.Pairwise (· < ·) ∧ step.keys ≠ [] ∧ (key ∈ rest ∨ ∀ b ∈ rest, b < key) := by
      intro hc hp
      obtain ⟨-, hkeys, hsorted, hcover⟩ := (h.reaches hc hp ht).resolve_left hh
      rw [hrem] at hsorted hcover
      obtain ⟨hfirst, hsorted⟩ := List.pairwise_cons.mp hsorted
      rcases hcover with hmem | hall
      · have hmem := (List.mem_cons.mp hmem).resolve_left fun he ↦ hne hc ht he.symm
        exact ⟨hfirst key hmem, hsorted, hkeys, .inl hmem⟩
      · exact ⟨hall a List.mem_cons_self, hsorted, hkeys,
          .inr fun b hb ↦ hall b (List.mem_cons_of_mem a hb)⟩
    have hafter : a < key → After (step.advance a attempt).held.cursor key := by
      intro hlt c hc
      rw [hcursor] at hc
      cases hc
      exact hlt
    refine ⟨?_, ?_, fun hd hc ↦ h.completed hd (hcycle ▸ hc)⟩
    · intro hc hp ha
      exact absurd (hafter (hahead (hcycle ▸ hc) (hphase ▸ hp)).1) ha
    · intro hc hp _
      obtain ⟨hlt, hsorted, hkeys, hcover⟩ := hahead (hcycle ▸ hc) (hphase ▸ hp)
      have hrest : (step.advance a attempt).remaining = rest := by
        change step.remaining.tail = rest
        rw [hrem]
        rfl
      refine .inr ⟨hafter hlt, hkeys, ?_, ?_⟩
      · exact hrest.symm ▸ hsorted
      · exact hrest.symm ▸ hcover

/-- An action keeps what is known of a key whose file is there, until the key is handled. -/
theorem CycleCovers.change {config : StoreConfig} {w w' : ScrubWorld} {event : ScrubEvent}
    (h : CycleCovers cycle key handled w) (hpresent : ¬ handled → key ∈ w.store.files.keys)
    (hc : ScrubChange config w event w') :
    CycleCovers cycle key
      (handled ∨ ∃ status, event = .attempted cycle key status ∧ status ≠ .absent) w' := by
  by_cases hh : handled
  · exact .of_handled (.inl hh) w'
  by_cases he : ∃ status, event = .attempted cycle key status ∧ status ≠ .absent
  · exact .of_handled (.inr he) w'
  suffices hkeep : CycleCovers cycle key handled w' from CycleCovers.weaken .inl hkeep
  have hpresent := hpresent hh
  cases hc with
  | stay => exact h
  | other store => exact h.other store
  | openCycle state save _ hstate _ =>
    refine h.save ?_ save
    unfold startCycle at hstate
    split at hstate
    · cases hstate
      exact fun _ _ ha ↦ absurd (fun c hc ↦ (by cases hc)) ha
    · cases hstate
  | request k state save _ hstate _ =>
    have hnew : Covers cycle key handled (Stored.mk state w.nextRequest).record := by
      have hcurrent := h.records _ w.holds_current
      unfold requestScrub at hstate
      split at hstate
      · cases hstate
      · cases hstate
        exact fun hc hp ha ↦ hcurrent hc hp ha
    have hsaved := h.save hnew save
    exact ⟨hsaved.records, hsaved.instances⟩
  | begin i step _ _ hstep => exact h.setInstance i (stepCovers_begin h hpresent hstep)
  | stop i step hplace =>
    have hi := h.instances i
    rw [hplace] at hi
    exact h.setInstance i hi
  | round i step a rest hooked readFails save _ place hplace hrem hheld hbusy hevent hnext =>
    have hi := h.instances i
    rw [hplace] at hi
    have hne : step.held.cycle = cycle → step.target = none → a ≠ key := by
      rintro hcycle ht rfl
      rcases hevent with ⟨rfl, -⟩ | ⟨-, hsome, -⟩
      · exact he ⟨_, by rw [hcycle], scrubAttempt_status_ne_absent hbusy hpresent⟩
      · exact hsome ht
    have hadv := stepCovers_advance (scrubAttempt config hooked readFails w.store a) hi hh hrem hne
    have hworld : CycleCovers cycle key handled
        { w with store := (scrubAttempt config hooked readFails w.store a).store } := h.other _
    have hnew : Covers cycle key handled
        (roundStored w step a (scrubAttempt config hooked readFails w.store a)).record :=
      (hadv none).held
    have hsaved := hworld.save hnew save
    rcases hnext with rfl | ⟨-, rfl⟩
    · exact hsaved.setInstance i trivial
    · exact hsaved.setInstance i (hadv _)
  | close i step hplace =>
    have hi := h.instances i
    rw [hplace] at hi
    exact h.setInstance i hi
  | complete i step now save place hplace ht hkeys hphase hheld hnext =>
    have hi := h.instances i
    rw [hplace] at hi
    have hnew : Covers cycle key handled
        (Stored.mk (step.held.complete now) w.current.request).record :=
      fun _ hp ↦ (by cases hp)
    have hsaved := h.save hnew save
    rcases hnext with rfl | ⟨-, rfl⟩
    · exact hsaved.setInstance i trivial
    · refine hsaved.setInstance i ⟨hi.held, hi.reaches, fun _ hcycle ↦ ?_⟩
      exact (hi.reaches hcycle hphase ht).elim id fun hr ↦ absurd hkeys hr.2.1
  | leave i step hplace => exact h.setInstance i trivial
  | abort i => exact h.setInstance i trivial
  | crash stored hs => exact h.crash hs

end

/-! ### Cycle numbers -/

/-- No record that is held or may come back is of a later cycle than the current one. -/
abbrev CycleBounded (w : ScrubWorld) : Prop :=
  w.Carries (fun stored ↦ stored.record.cycle ≤ w.current.record.cycle)
    fun step ↦ step.held.cycle ≤ w.current.record.cycle

private theorem CycleBounded.save {w : ScrubWorld} (h : CycleBounded w) {new : Stored}
    (hn : w.current.record.cycle ≤ new.record.cycle) (outcome : SaveOutcome) :
    CycleBounded (w.save new outcome) := by
  cases outcome with
  | failsBeforeRename => exact h
  | saved =>
    refine (ScrubWorld.Carries.save (h.mono (fun _ hs ↦ hs.trans hn) fun _ hs ↦ hs.trans hn)
      (le_refl new.record.cycle) .saved)
  | failsAfterRename =>
    refine (ScrubWorld.Carries.save (h.mono (fun _ hs ↦ hs.trans hn) fun _ hs ↦ hs.trans hn)
      (le_refl new.record.cycle) .failsAfterRename)

private theorem StepState.advance_cycle (step : StepState) (key : Digest) (attempt : ScrubAttempt) :
    (step.advance key attempt).held.cycle = step.held.cycle := by
  unfold StepState.advance
  dsimp only
  split <;> rfl

private theorem CycleBounded.change {config : StoreConfig} {w w' : ScrubWorld} {event : ScrubEvent}
    (h : CycleBounded w) (hc : ScrubChange config w event w') : CycleBounded w' := by
  cases hc with
  | stay => exact h
  | other store => exact h.other store
  | openCycle state save _ hstate _ =>
    refine CycleBounded.save h ?_ save
    unfold startCycle at hstate
    split at hstate
    · cases hstate
      exact Nat.le_succ _
    · cases hstate
  | request k state save _ hstate _ =>
    have hnew : w.current.record.cycle ≤ (Stored.mk state w.nextRequest).record.cycle := by
      unfold requestScrub at hstate
      split at hstate
      · cases hstate
      · cases hstate
        exact le_rfl
    have hsaved := CycleBounded.save h hnew save
    exact ⟨hsaved.records, hsaved.instances⟩
  | begin i step _ _ hstep =>
    refine h.setInstance i ?_
    unfold beginStep at hstep
    split at hstep
    · cases hstep
    · split at hstep
      · cases hstep
      · obtain ⟨state, hload, hstep⟩ := bind_ok hstep
        cases hstep
        rw [load_ok hload]
        exact le_rfl
  | stop i step hplace =>
    have hi := h.instances i
    rw [hplace] at hi
    exact h.setInstance i hi
  | round i step a rest hooked readFails save _ place hplace hrem hheld hbusy hevent hnext =>
    have hworld : CycleBounded
        { w with store := (scrubAttempt config hooked readFails w.store a).store } := h.other _
    have hnew : w.current.record.cycle ≤
        (roundStored w step a (scrubAttempt config hooked readFails w.store a)).record.cycle := by
      rw [hheld]
      exact (step.advance_cycle a _).ge
    have hsaved := CycleBounded.save hworld hnew save
    rcases hnext with rfl | ⟨rfl, rfl⟩
    · exact hsaved.setInstance i trivial
    · exact hsaved.setInstance i (le_refl (step.advance a _).held.cycle)
  | close i step hplace =>
    have hi := h.instances i
    rw [hplace] at hi
    exact h.setInstance i hi
  | complete i step now save place hplace ht hkeys hphase hheld hnext =>
    have hnew : w.current.record.cycle ≤
        (Stored.mk (step.held.complete now) w.current.request).record.cycle := hheld ▸ le_rfl
    have hsaved := CycleBounded.save h hnew save
    rcases hnext with rfl | ⟨rfl, rfl⟩
    · exact hsaved.setInstance i trivial
    · exact hsaved.setInstance i (le_refl step.held.cycle)
  | leave i step hplace => exact h.setInstance i trivial
  | abort i => exact h.setInstance i trivial
  | crash stored hs =>
    refine ⟨fun stored' hs' ↦ ?_, fun i ↦ trivial⟩
    rcases hs' with rfl | hs'
    · exact le_rfl
    · cases hs'

/-! ### Every run -/

section

variable {config : StoreConfig}

private theorem ScrubRun.cycleBounded {w w' : ScrubWorld} {steps : List ScrubStep}
    (h : ScrubRun config w steps w') (hw : CycleBounded w) : CycleBounded w' := by
  induction h with
  | nil => exact hw
  | snoc _ action ih => exact CycleBounded.change ih (scrubChange_act config _ action)

/-- Right after a cycle was opened nothing is known to be handled, and nothing needs to be. -/
theorem cycleCovers_open {w : ScrubWorld} (hw : CycleBounded w) {save : SaveOutcome} {cycle : Nat}
    (hopen : (scrubAct config w (.startCycle save)).2 = .opened cycle) (key : Digest)
    (handled : Prop) :
    CycleCovers cycle key handled (scrubAct config w (.startCycle save)).1 := by
  have hchange := scrubChange_act config w (.startCycle save)
  generalize scrubAct config w (.startCycle save) = out at hopen hchange ⊢
  obtain ⟨w', event⟩ := out
  cases hopen
  cases hchange with
  | openCycle state save' _ hstate hevent =>
    rcases hevent with hevent | ⟨hevent, -⟩
    · cases hevent
      unfold startCycle at hstate
      split at hstate
      · cases hstate
        refine ScrubWorld.Carries.save ⟨fun stored hs hc ↦ ?_, fun i ↦ ?_⟩ ?_ save'
        · have hle := hw.records stored hs
          change stored.record.cycle = w.current.record.cycle + 1 at hc
          omega
        · refine (hw.instances i).mono fun step hle ↦ ?_
          have hno : step.held.cycle ≠ w.current.record.cycle + 1 := by omega
          exact ⟨fun hc ↦ absurd hc hno, fun hc ↦ absurd hc hno, fun _ hc ↦ absurd hc hno⟩
        · exact fun _ _ ha ↦ absurd (fun c hc ↦ (by cases hc)) ha
      · cases hstate
    · cases hevent
  | request _ _ _ _ _ hevent =>
    rcases hevent with ⟨hevent, -⟩ | hevent <;> cases hevent
  | round _ _ _ _ _ _ _ _ _ _ _ _ _ hevent _ =>
    rcases hevent with ⟨hevent, -⟩ | ⟨hevent, -⟩ <;> cases hevent

/-- The file of the key is there after the opening and after every step, until a step of the cycle
has handled it. -/
def PresentUntilHandled (cycle : Nat) (key : Digest) (start : ScrubWorld)
    (steps : List ScrubStep) : Prop :=
  key ∈ start.store.files.keys ∧
    ∀ before step after, steps = before ++ step :: after → ¬ Handled cycle key (before ++ [step]) →
      key ∈ step.after.store.files.keys

private theorem PresentUntilHandled.of_append {cycle : Nat} {key : Digest} {start : ScrubWorld}
    {steps more : List ScrubStep} (h : PresentUntilHandled cycle key start (steps ++ more)) :
    PresentUntilHandled cycle key start steps := by
  refine ⟨h.1, fun before step after he ↦ h.2 before step (after ++ more) ?_⟩
  rw [he, List.append_assoc, List.cons_append]

/-- Along a run from the opening of a cycle, cursors and steps of the cycle know of the key. -/
theorem ScrubRun.cycleCovers {start w : ScrubWorld} {steps : List ScrubStep} {cycle : Nat}
    {key : Digest} (h : ScrubRun config start steps w)
    (hstart : CycleCovers cycle key (Handled cycle key []) start)
    (hpresent : PresentUntilHandled cycle key start steps) :
    CycleCovers cycle key (Handled cycle key steps) w ∧
      (¬ Handled cycle key steps → key ∈ w.store.files.keys) := by
  induction h with
  | nil => exact ⟨hstart, fun _ ↦ hpresent.1⟩
  | @snoc w' steps hrun action ih =>
    obtain ⟨hcovers, hthere⟩ := ih hpresent.of_append
    refine ⟨?_, fun hh ↦ hpresent.2 steps _ [] rfl hh⟩
    refine CycleCovers.weaken ?_ (CycleCovers.change hcovers hthere (scrubChange_act config w' action))
    rintro (⟨step, hs, hevent⟩ | ⟨status, hevent⟩)
    · exact ⟨step, List.mem_append_left _ hs, hevent⟩
    · exact ⟨_, List.mem_append_right _ List.mem_cons_self, status, hevent⟩

/-- A completed cycle covered everything: whatever the scrubbers of any processes, requests, pins,
failures, crashes and other operations do from the opening of a cycle to the return of a step that
reports its completion, every key whose file was there all the time has been authenticated or
quarantined by a step of the cycle, while it was not pinned: that step found a file that opens and
is authentic, or found one that was not and left none. -/
theorem completed_cycle_handled {first w last : ScrubWorld} {earlier steps : List ScrubStep}
    (h0 : first.Fresh) (hearlier : ScrubRun config first earlier w) {save : SaveOutcome}
    {cycle : Nat} (hopen : (scrubAct config w (.startCycle save)).2 = .opened cycle)
    (hrun : ScrubRun config (scrubAct config w (.startCycle save)).1 steps last) {i : Nat}
    {answered : Option Nat} {report : ScrubStepReport}
    (hreturn : (scrubAct config last (.leaveStep i)).2 = .returned cycle answered report)
    (hcompleted : report.cycleCompleted = true) {key : Digest}
    (hpresent : PresentUntilHandled cycle key (scrubAct config w (.startCycle save)).1 steps) :
    ∃ step ∈ steps, ∃ status, step.event = .attempted cycle key status ∧
      (status = .authenticated ∨ status = .quarantined) ∧ busy step.before.store key = false ∧
      status.Sound config key step.before.store step.after.store := by
  have hfresh : CycleBounded first := h0.carries (le_refl first.current.record.cycle) _
  have hbounded := hearlier.cycleBounded hfresh
  obtain ⟨hcovers, -⟩ := hrun.cycleCovers (cycleCovers_open hbounded hopen key _) hpresent
  have hhandled : Handled cycle key steps := by
    unfold scrubAct at hreturn
    dsimp only at hreturn
    split at hreturn
    · next step hplace =>
      have hi := hcovers.instances i
      rw [hplace] at hi
      cases hreturn
      exact hi.completed hcompleted rfl
    · cases hreturn
  obtain ⟨step, hs, status, hevent, hstatus⟩ := hhandled
  have hchange := hrun.change_of_mem hs
  rw [hevent] at hchange
  refine ⟨step, hs, status, hevent, ?_, hchange.sound⟩
  cases status with
  | authenticated => exact .inl rfl
  | absent => exact absurd rfl hstatus
  | quarantined => exact .inr rfl

end

/-- Two scrubbers share a cycle: the first authenticates the only file while the second is in a
step of its own, and the second completes the cycle. -/
def sharedCycle : List ScrubAction :=
  [.beginStep 0 4 1, .beginStep 1 4 1, .scrubKey 0 false false false .saved,
    .scrubKey 1 false false false .saved, .completeCycle 1 9 .saved, .leaveStep 1,
    .beginStep 1 4 1, .scrubKey 1 false false false .saved, .completeCycle 1 10 .saved]

/-- The only file is handled in the shared cycle, and the status is sound. -/
theorem completed_cycle_handled_shared :
    ∃ step ∈ scrubSteps scrubSampleConfig
        (scrubAct scrubSampleConfig scrubSampleWorld (.startCycle .saved)).1 sharedCycle,
      ∃ status, step.event = .attempted 1 (.ofNat 5) status ∧
        (status = .authenticated ∨ status = .quarantined) ∧
        busy step.before.store (.ofNat 5) = false ∧
        status.Sound scrubSampleConfig (.ofNat 5) step.before.store step.after.store := by
  have hthere : ∀ step ∈ scrubSteps scrubSampleConfig
      (scrubAct scrubSampleConfig scrubSampleWorld (.startCycle .saved)).1 sharedCycle,
      Digest.ofNat 5 ∈ step.after.store.files.keys := by decide +kernel
  have hopen : (scrubAct scrubSampleConfig scrubSampleWorld (.startCycle .saved)).2 =
      .opened 1 := by decide +kernel
  have hreturn : (scrubAct scrubSampleConfig (scrubAfter scrubSampleConfig
      (scrubAct scrubSampleConfig scrubSampleWorld (.startCycle .saved)).1 sharedCycle)
        (.leaveStep 1)).2 =
      .returned 1 none ⟨0, 0, 0, 0, 0, true, false, none⟩ := by decide +kernel
  have hpresent : PresentUntilHandled 1 (.ofNat 5)
      (scrubAct scrubSampleConfig scrubSampleWorld (.startCycle .saved)).1
      (scrubSteps scrubSampleConfig
        (scrubAct scrubSampleConfig scrubSampleWorld (.startCycle .saved)).1 sharedCycle) := by
    refine ⟨by decide +kernel, fun before step after he _ ↦ hthere step ?_⟩
    rw [he]
    exact List.mem_append_right _ List.mem_cons_self
  exact completed_cycle_handled fresh_scrubSampleWorld (.nil _) hopen (scrubRun_steps _ _ _)
    hreturn rfl hpresent

end SpoolCache.Store
