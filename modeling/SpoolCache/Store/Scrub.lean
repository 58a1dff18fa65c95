import SpoolCache.Store.TokenFiles

/-!
# The scrubber

`token_scrub.py`. Scrubbers of any number of processes share one durable record. A step reads the
record in a section of the namespace lock, works on its keys in later sections, and writes the
record back only where it finds it unchanged. The sections of all scrubbers, and whatever else
happens to the root between them, are the actions of one transition function. A write of the
record may fail on either side of its rename, and a crash may take back a rename that was not
synced.
-/

namespace SpoolCache.Store

open SpoolCache.Base SpoolCache.Quorum

/-! ### The record -/

/-- `"idle"` and `"files"`. -/
inductive ScrubPhase where
  | idle
  | files
  deriving DecidableEq

/-- The texts of `last_request_status`, the empty one apart. -/
inductive ScrubStatus where
  | authenticated
  | absent
  | quarantined
  deriving DecidableEq

/-- The durable record, `token_scrub.py:30–40`, without schema and binding; `none` is an empty
text. -/
structure ScrubRecord where
  phase : ScrubPhase
  cycle : Nat
  cursor : Option Digest
  targetEntry : Option Digest
  lastCompletedUnixNs : Nat
  lastRequestStatus : Option ScrubStatus
  deriving DecidableEq

/-- `_empty`, `token_scrub.py:29–40`. -/
def ScrubRecord.empty : ScrubRecord := ⟨.idle, 0, none, none, 0, none⟩

/-- `_load`, `token_scrub.py:42–64`: the bounds that a stored record may break. -/
def ScrubRecord.load (r : ScrubRecord) : Except PyError ScrubRecord :=
  if r.cycle < 2 ^ 63 ∧ r.lastCompletedUnixNs < 2 ^ 63 then .ok r
  else .error (.manifestError "invalid token scrub state")

/-- A key comes after a cursor; every text comes after the empty one. -/
def After (cursor : Option Digest) (key : Digest) : Prop := ∀ c ∈ cursor, c < key

instance (cursor : Option Digest) (key : Digest) : Decidable (After cursor key) :=
  inferInstanceAs (Decidable (∀ c ∈ cursor, c < key))

/-- `start_cycle`, `token_scrub.py:91–97`: the record to store, if there is one. -/
def startCycle (r : ScrubRecord) : Option ScrubRecord :=
  if r.phase = .idle then
    some { r with phase := .files, cursor := none, cycle := r.cycle + 1 }
  else none

/-- `request`, `token_scrub.py:99–108`. -/
def requestScrub (r : ScrubRecord) (key : Digest) : Except PyError ScrubRecord :=
  if r.targetEntry ≠ none then .error (.valueError "a token scrub request is already pending")
  else .ok { r with targetEntry := some key, lastRequestStatus := none }

/-- The keys of a step, `token_scrub.py:130–143`. -/
def selectKeys (s : RankState) (r : ScrubRecord) (itemBudget : Nat) : List Digest :=
  match r.targetEntry with
  | some target => [target]
  | none =>
    ((s.files.keys.filter fun key ↦ decide (After r.cursor key)).insertionSort (· ≤ ·)).take
      itemBudget

/-! ### One key -/

/-- What a step does with one key. -/
structure ScrubAttempt where
  store : RankState
  status : ScrubStatus
  length : Nat
  released : Nat

section

variable (config : StoreConfig)

/-- `token_scrub.py:158–177`, of a key that is not pinned. `readFails` says that the file, which is
there, cannot be read or its marker not be cleared. -/
def scrubAttempt (hooked readFails : Bool) (s : RankState) (key : Digest) : ScrubAttempt :=
  match openChunk config s key true with
  | .error .fileNotFound => ⟨s, .absent, 0, 0⟩
  | .error _ => ⟨quarantineBad hooked s key, .quarantined, 0, 0⟩
  | .ok desc =>
    if readFails ∨ ((s.files.get? key).map TokenFile.authentic).getD false = false then
      ⟨quarantineBad hooked s key, .quarantined, 0, 0⟩
    else if key ∈ s.markers.keys then
      ⟨clearWithdrawal s key, .authenticated, (desc.segments.map (·.byteLength)).sum, 1⟩
    else ⟨s, .authenticated, (desc.segments.map (·.byteLength)).sum, 0⟩

/-- What a status says of the file of a key, before and after the attempt: authenticated, it opens
and its payload is authentic, and it stays without a marker; quarantined, it was there and is gone;
absent, there was none and nothing changed. -/
def ScrubStatus.Sound (key : Digest) (before after : RankState) : ScrubStatus → Prop
  | .authenticated => (∃ desc, openChunk config before key true = .ok desc) ∧
      (before.files.get? key).map TokenFile.authentic = some true ∧
      after.files = before.files ∧ key ∉ after.markers.keys
  | .absent => key ∉ before.files.keys ∧ after = before
  | .quarantined => key ∈ before.files.keys ∧ key ∉ after.files.keys

/-- A file that is not pinned is gone after it was quarantined. -/
theorem not_mem_files_quarantineBad (hooked : Bool) {s : RankState} {key : Digest}
    (hbusy : busy s key = false) : key ∉ (quarantineBad hooked s key).files.keys := by
  unfold quarantineBad quarantineManifest
  rw [hbusy, if_neg Bool.false_ne_true]
  dsimp only
  by_cases hno : key ∉ (recordWithdrawal hooked (markWithdrawn s key) key).files.keys
  · rw [if_pos hno]
    exact hno
  · have hgone : key ∉ ((recordWithdrawal hooked (markWithdrawn s key) key).files.erase key).keys :=
      fun hmem ↦ ((OrderedDict.mem_keys_erase _ _ _).mp hmem).1 rfl
    rw [if_neg hno]
    split <;> exact hgone

/-- With markers allowed, only a missing file is not found. -/
theorem openChunk_withdrawn_fileNotFound {s : RankState} {key : Digest} :
    openChunk config s key true = .error .fileNotFound ↔ key ∉ s.files.keys := by
  rw [← OrderedDict.get?_eq_none_iff]
  unfold openChunk
  rw [if_neg (by simp)]
  cases s.files.get? key with
  | none => exact ⟨fun _ ↦ rfl, fun _ ↦ rfl⟩
  | some file =>
    refine ⟨fun hopen ↦ ?_, fun hno ↦ (by cases hno)⟩
    dsimp only at hopen
    split at hopen
    · cases hopen
    · split at hopen <;> cases hopen

/-- The status of an attempt on a key that is not pinned is sound. -/
theorem sound_scrubAttempt (hooked readFails : Bool) {s : RankState} {key : Digest}
    (hbusy : busy s key = false) :
    (scrubAttempt config hooked readFails s key).status.Sound config key s
      (scrubAttempt config hooked readFails s key).store := by
  unfold scrubAttempt
  split
  · next hopen => exact ⟨(openChunk_withdrawn_fileNotFound config).mp hopen, rfl⟩
  · next e hne hopen =>
    refine ⟨?_, not_mem_files_quarantineBad hooked hbusy⟩
    by_contra hmem
    rw [(openChunk_withdrawn_fileNotFound config).mpr hmem] at hopen
    cases hopen
    exact hne rfl
  · next desc hopen =>
    have hmem : key ∈ s.files.keys := by
      by_contra hmem
      rw [(openChunk_withdrawn_fileNotFound config).mpr hmem] at hopen
      cases hopen
    split
    · exact ⟨hmem, not_mem_files_quarantineBad hooked hbusy⟩
    · next hgood =>
      obtain ⟨file, hfile⟩ := (OrderedDict.mem_keys_iff _ _).mp hmem
      have hauthentic : (s.files.get? key).map TokenFile.authentic = some true := by
        rw [hfile, Option.map_some, Option.getD_some] at hgood
        rw [hfile, Option.map_some]
        cases ha : file.authentic with
        | true => rfl
        | false => exact absurd (.inr ha) hgood
      split
      · exact ⟨⟨desc, hopen⟩, hauthentic, rfl,
          fun hmem ↦ ((OrderedDict.mem_keys_erase _ _ _).mp hmem).1 rfl⟩
      · next hmarker => exact ⟨⟨desc, hopen⟩, hauthentic, rfl, hmarker⟩

/-! ### Steps -/

/-- The local variables of `step`, `token_scrub.py:116–211`; `remaining` are the keys that its loop
has not reached, and `answered` is the request that it has answered. -/
structure StepState where
  held : ScrubRecord
  target : Option Digest
  keys : List Digest
  remaining : List Digest
  payloadBudgetBytes : Nat
  checked : Nat
  authenticated : Nat
  quarantined : Nat
  payloadBytes : Nat
  released : Nat
  completed : Bool
  answered : Option Nat

/-- `ScrubStepReport`, `token_scrub.py:197–211`. -/
structure ScrubStepReport where
  checked : Nat
  payloadBytes : Nat
  authenticated : Nat
  quarantined : Nat
  inventoryReleased : Nat
  cycleCompleted : Bool
  requestCompleted : Bool
  requestStatus : Option ScrubStatus
  deriving DecidableEq

/-- Where a scrubber instance is. -/
inductive Instance where
  | outside
  | looping (step : StepState)
  | closing (step : StepState)
  | leaving (step : StepState)

/-- A stored record with the number of the request it holds. -/
structure Stored where
  record : ScrubRecord
  request : Nat

/-- Where a write of the record ends: it returns, or it raises before or after its rename. -/
inductive SaveOutcome where
  | saved
  | failsBeforeRename
  | failsAfterRename
  deriving DecidableEq

/-- A root with its scrubbers. `stale` are the records that a crash may bring back. -/
structure ScrubWorld where
  store : RankState
  current : Stored
  stale : List Stored
  nextRequest : Nat
  instances : Nat → Instance

/-- What an action shows. -/
inductive ScrubEvent where
  | quiet
  | opened (cycle : Nat)
  | requested (key : Digest) (request : Nat)
  | attempted (cycle : Nat) (key : Digest) (status : ScrubStatus)
  | answered (key : Digest) (request : Nat) (status : ScrubStatus)
  | returned (cycle : Nat) (answered : Option Nat) (report : ScrubStepReport)
  deriving DecidableEq

/-- Sections of the lock, and what happens between them. -/
inductive ScrubAction where
  /-- Any other operation on the root. -/
  | other (store : RankState)
  | startCycle (save : SaveOutcome)
  | request (key : Digest) (save : SaveOutcome)
  | beginStep (i : Nat) (itemBudget payloadBudgetBytes : Nat)
  | scrubKey (i : Nat) (hooked cancelled readFails : Bool) (save : SaveOutcome)
  | completeCycle (i : Nat) (now : Nat) (save : SaveOutcome)
  | leaveStep (i : Nat)
  /-- An instance raises outside a write, or its process ends. -/
  | abort (i : Nat)
  /-- The machine goes down and comes back with one of the records it may have. -/
  | crash (survivor : Nat)

namespace ScrubWorld

/-- `_save`, `token_scrub.py:66–67`. -/
def save (w : ScrubWorld) (stored : Stored) : SaveOutcome → ScrubWorld
  | .saved => { w with current := stored, stale := [] }
  | .failsBeforeRename => w
  | .failsAfterRename => { w with current := stored, stale := w.current :: w.stale }

/-- Move an instance. -/
def setInstance (w : ScrubWorld) (i : Nat) (place : Instance) : ScrubWorld :=
  { w with instances := Function.update w.instances i place }

end ScrubWorld

/-- The first section of `step`, `token_scrub.py:124–143`. -/
def beginStep (s : RankState) (r : ScrubRecord) (itemBudget payloadBudgetBytes : Nat) :
    Except PyError StepState :=
  if itemBudget = 0 ∨ 64 < itemBudget then
    .error (.valueError "token scrub item bound must be in 1..64")
  else if payloadBudgetBytes = 0 then
    .error (.valueError "token scrub byte bound must be positive")
  else do
    let state ← r.load
    let keys := selectKeys s state itemBudget
    pure ⟨state, state.targetEntry, keys, keys, payloadBudgetBytes, 0, 0, 0, 0, 0, false, none⟩

/-- The variables after one key, `token_scrub.py:163–184`. -/
def StepState.advance (step : StepState) (key : Digest) (attempt : ScrubAttempt) : StepState :=
  { step with
    held := if step.target = none then { step.held with cursor := some key }
      else { step.held with targetEntry := none, lastRequestStatus := some attempt.status }
    remaining := step.remaining.tail
    checked := step.checked + 1
    authenticated := step.authenticated + if attempt.status = .authenticated then 1 else 0
    quarantined := step.quarantined + if attempt.status = .quarantined then 1 else 0
    payloadBytes := step.payloadBytes + attempt.length
    released := step.released + attempt.released }

/-- One round of the loop of `step`, `token_scrub.py:145–187`. -/
def scrubRound (w : ScrubWorld) (i : Nat) (step : StepState)
    (hooked cancelled readFails : Bool) (save : SaveOutcome) : ScrubWorld × ScrubEvent :=
  match step.remaining with
  | [] => (w.setInstance i (.closing step), .quiet)
  | key :: _ =>
    if cancelled ∨ 0 < step.checked ∧ step.payloadBudgetBytes ≤ step.payloadBytes then
      (w.setInstance i (.closing step), .quiet)
    else
      match w.current.record.load with
      | .error _ => (w.setInstance i .outside, .quiet)
      | .ok state =>
        if state ≠ step.held then (w.setInstance i (.closing step), .quiet)
        else if busy w.store key then (w.setInstance i (.closing step), .quiet)
        else
          let attempt := scrubAttempt config hooked readFails w.store key
          let next := step.advance key attempt
          let w := { w with store := attempt.store }
          let saved := w.save ⟨next.held, w.current.request⟩ save
          let shown : ScrubEvent := match step.target, save with
            | none, _ => .attempted step.held.cycle key attempt.status
            | some _, .failsBeforeRename => .attempted step.held.cycle key attempt.status
            | some _, _ => .answered key w.current.request attempt.status
          match save with
          | .saved =>
            let next := { next with answered := step.target.map fun _ ↦ w.current.request }
            (saved.setInstance i (.looping next), shown)
          | _ => (saved.setInstance i .outside, shown)

/-- The end of `step` before its report, `token_scrub.py:188–196`. -/
def closeStep (w : ScrubWorld) (i : Nat) (step : StepState) (now : Nat) (save : SaveOutcome) :
    ScrubWorld :=
  if step.target = none ∧ step.keys = [] ∧ step.held.phase = .files then
    match w.current.record.load with
    | .error _ => w.setInstance i .outside
    | .ok state =>
      if state ≠ step.held then w.setInstance i (.leaving step)
      else
        let held : ScrubRecord :=
          { step.held with phase := .idle, cursor := none, lastCompletedUnixNs := now }
        let saved := w.save ⟨held, w.current.request⟩ save
        match save with
        | .saved => saved.setInstance i (.leaving { step with completed := true })
        | _ => saved.setInstance i .outside
  else w.setInstance i (.leaving step)

/-- The report of a step, `token_scrub.py:197–211`. -/
def StepState.report (step : StepState) : ScrubStepReport where
  checked := step.checked
  payloadBytes := step.payloadBytes
  authenticated := step.authenticated
  quarantined := step.quarantined
  inventoryReleased := step.released
  cycleCompleted := step.completed
  requestCompleted := step.target ≠ none ∧ 0 < step.checked
  requestStatus :=
    if step.target ≠ none ∧ 0 < step.checked then step.held.lastRequestStatus else none

/-- One action. -/
def scrubAct (w : ScrubWorld) : ScrubAction → ScrubWorld × ScrubEvent
  | .other store => ({ w with store := store }, .quiet)
  | .startCycle save =>
    match w.current.record.load with
    | .error _ => (w, .quiet)
    | .ok state =>
      match startCycle state with
      | none => (w, .quiet)
      | some state =>
        (w.save ⟨state, w.current.request⟩ save,
          if save = .failsBeforeRename then .quiet else .opened state.cycle)
  | .request key save =>
    match w.current.record.load >>= fun state ↦ requestScrub state key with
    | .error _ => (w, .quiet)
    | .ok state =>
      ({ w.save ⟨state, w.nextRequest⟩ save with nextRequest := w.nextRequest + 1 },
        if save = .saved then .requested key w.nextRequest else .quiet)
  | .beginStep i itemBudget payloadBudgetBytes =>
    match w.instances i, beginStep w.store w.current.record itemBudget payloadBudgetBytes with
    | .outside, .ok step => (w.setInstance i (.looping step), .quiet)
    | _, _ => (w, .quiet)
  | .scrubKey i hooked cancelled readFails save =>
    match w.instances i with
    | .looping step => scrubRound config w i step hooked cancelled readFails save
    | _ => (w, .quiet)
  | .completeCycle i now save =>
    match w.instances i with
    | .closing step => (closeStep w i step now save, .quiet)
    | _ => (w, .quiet)
  | .leaveStep i =>
    match w.instances i with
    | .leaving step =>
      (w.setInstance i .outside, .returned step.held.cycle step.answered step.report)
    | _ => (w, .quiet)
  | .abort i => (w.setInstance i .outside, .quiet)
  | .crash survivor =>
    ({ w with
        current := (w.current :: w.stale).getD survivor w.current
        stale := []
        instances := fun _ ↦ .outside }, .quiet)

/-! ### Runs -/

/-- One action of a run. -/
structure ScrubStep where
  before : ScrubWorld
  action : ScrubAction
  event : ScrubEvent
  after : ScrubWorld

/-- Any interleaving of actions. -/
inductive ScrubRun : ScrubWorld → List ScrubStep → ScrubWorld → Prop where
  | nil (w : ScrubWorld) : ScrubRun w [] w
  | snoc {w w' : ScrubWorld} {steps : List ScrubStep} (h : ScrubRun w steps w')
      (action : ScrubAction) :
      ScrubRun w (steps ++ [⟨w', action, (scrubAct config w' action).2,
        (scrubAct config w' action).1⟩]) (scrubAct config w' action).1

/-- The steps of a list of actions. -/
def scrubSteps (w : ScrubWorld) : List ScrubAction → List ScrubStep
  | [] => []
  | action :: actions =>
    ⟨w, action, (scrubAct config w action).2, (scrubAct config w action).1⟩ ::
      scrubSteps (scrubAct config w action).1 actions

/-- The root after a list of actions. -/
def scrubAfter (w : ScrubWorld) (actions : List ScrubAction) : ScrubWorld :=
  actions.foldl (fun w action ↦ (scrubAct config w action).1) w

private theorem scrubRun_append {w w' : ScrubWorld} {steps : List ScrubStep}
    (h : ScrubRun config w steps w') (actions : List ScrubAction) :
    ScrubRun config w (steps ++ scrubSteps config w' actions) (scrubAfter config w' actions) := by
  induction actions generalizing w' steps with
  | nil =>
    rw [scrubSteps, List.append_nil]
    exact h
  | cons action actions ih =>
    have h' := ih (h.snoc action)
    rw [List.append_assoc, List.singleton_append] at h'
    exact h'

/-- A list of actions is a run. -/
theorem scrubRun_steps (w : ScrubWorld) (actions : List ScrubAction) :
    ScrubRun config w (scrubSteps config w actions) (scrubAfter config w actions) :=
  scrubRun_append config (.nil w) actions

end

namespace ScrubWorld

/-- A root whose record is durable and that no scrubber works on. -/
structure Fresh (w : ScrubWorld) : Prop where
  stale : w.stale = []
  request : w.current.request < w.nextRequest
  instances : ∀ i, w.instances i = .outside

/-- A record that a crash may leave. -/
def Holds (w : ScrubWorld) (stored : Stored) : Prop := stored = w.current ∨ stored ∈ w.stale

/-- A crash may leave the record as it is. -/
theorem holds_current (w : ScrubWorld) : w.Holds w.current := .inl rfl

/-- After a save a crash leaves the new record, or one that it might have left before. -/
theorem Holds.of_save {w : ScrubWorld} {new stored : Stored} {outcome : SaveOutcome}
    (h : (w.save new outcome).Holds stored) : stored = new ∨ w.Holds stored := by
  cases outcome with
  | saved =>
    rcases h with h | h
    · exact .inl h
    · cases h
  | failsBeforeRename => exact .inr h
  | failsAfterRename =>
    rcases h with h | h
    · exact .inl h
    · rcases List.mem_cons.mp h with h | h
      · exact .inr (.inl h)
      · exact .inr (.inr h)

/-- A save changes no file. -/
@[simp] theorem store_save (w : ScrubWorld) (new : Stored) (outcome : SaveOutcome) :
    (w.save new outcome).store = w.store := by
  cases outcome <;> rfl

/-- A save moves no instance. -/
@[simp] theorem instances_save (w : ScrubWorld) (new : Stored) (outcome : SaveOutcome) :
    (w.save new outcome).instances = w.instances := by
  cases outcome <;> rfl

/-- A save hands out no request. -/
@[simp] theorem nextRequest_save (w : ScrubWorld) (new : Stored) (outcome : SaveOutcome) :
    (w.save new outcome).nextRequest = w.nextRequest := by
  cases outcome <;> rfl

/-- Only that instance has moved. -/
@[simp] theorem instances_setInstance (w : ScrubWorld) (i : Nat) (place : Instance) (j : Nat) :
    (w.setInstance i place).instances j = if j = i then place else w.instances j :=
  Function.update_apply _ _ _ _

end ScrubWorld

/-- A record that loads is the state that was saved. -/
theorem load_ok {r state : ScrubRecord} (h : r.load = .ok state) : state = r := by
  unfold ScrubRecord.load at h
  split at h
  · cases h
    rfl
  · cases h

/-- What is known of a step that an instance is in. -/
def Instance.All (P : StepState → Prop) : Instance → Prop
  | .outside => True
  | .looping step => P step
  | .closing step => P step
  | .leaving step => P step

/-- The step that an instance is in. -/
def Instance.step? : Instance → Option StepState
  | .outside => none
  | .looping step => some step
  | .closing step => some step
  | .leaving step => some step

/-- What is known of a step may be weakened. -/
theorem Instance.All.mono {P Q : StepState → Prop} (h : ∀ step, P step → Q step)
    {place : Instance} (hp : place.All P) : place.All Q := by
  cases place with
  | outside => exact trivial
  | looping step => exact h step hp
  | closing step => exact h step hp
  | leaving step => exact h step hp

/-- What is known of every record that a crash may leave, and of every step. -/
structure ScrubWorld.Carries (R : Stored → Prop) (S : StepState → Prop) (w : ScrubWorld) :
    Prop where
  records : ∀ stored, w.Holds stored → R stored
  instances : ∀ i, (w.instances i).All S

namespace ScrubWorld.Carries

variable {R R' : Stored → Prop} {S S' : StepState → Prop} {w : ScrubWorld}

/-- What is known of records and steps may be weakened. -/
theorem mono (h : w.Carries R S) (hR : ∀ stored, R stored → R' stored)
    (hS : ∀ step, S step → S' step) : w.Carries R' S' :=
  ⟨fun stored hs ↦ hR stored (h.records stored hs), fun i ↦ (h.instances i).mono hS⟩

/-- As much is known of the present record. -/
theorem current (h : w.Carries R S) : R w.current := h.records _ w.holds_current

/-- An instance may enter a step of which as much is known. -/
theorem setInstance (h : w.Carries R S) (i : Nat) {place : Instance} (hp : place.All S) :
    (w.setInstance i place).Carries R S := by
  refine ⟨h.records, fun j ↦ ?_⟩
  rw [instances_setInstance]
  split
  · exact hp
  · exact h.instances j

/-- A save of such a record keeps what is known, whatever its outcome. -/
theorem save (h : w.Carries R S) {new : Stored} (hn : R new) (outcome : SaveOutcome) :
    (w.save new outcome).Carries R S := by
  refine ⟨fun stored hs ↦ ?_, fun i ↦ ?_⟩
  · rcases hs.of_save with rfl | hs
    · exact hn
    · exact h.records stored hs
  · rw [instances_save]
    exact h.instances i

/-- Nothing is known of the files of the root. -/
theorem other (h : w.Carries R S) (store : RankState) :
    { w with store := store }.Carries R S := ⟨h.records, h.instances⟩

/-- The record that a crash leaves is one of which as much is known. -/
theorem crash (h : w.Carries R S) {stored : Stored} (hs : w.Holds stored) :
    { w with current := stored, stale := [], instances := fun _ ↦ .outside }.Carries R S := by
  refine ⟨fun stored' hs' ↦ ?_, fun i ↦ trivial⟩
  rcases hs' with hs' | hs'
  · rw [hs']
    exact h.records stored hs
  · cases hs'

end ScrubWorld.Carries

/-- A fresh root carries what holds of its one record. -/
theorem ScrubWorld.Fresh.carries {w : ScrubWorld} (h : w.Fresh) {R : Stored → Prop}
    (hR : R w.current) (S : StepState → Prop) : w.Carries R S := by
  refine ⟨fun stored hs ↦ ?_, fun i ↦ ?_⟩
  · rcases hs with rfl | hs
    · exact hR
    · rw [h.stale] at hs
      cases hs
  · rw [h.instances i]
    exact trivial

/-! ### What an action can do -/

section

variable (config : StoreConfig)

/-- What a round stores: the cursor, or the answer to the request. -/
def roundStored (w : ScrubWorld) (step : StepState) (key : Digest) (attempt : ScrubAttempt) :
    Stored := ⟨(step.advance key attempt).held, w.current.request⟩

/-- The record of a completed cycle. -/
def ScrubRecord.complete (r : ScrubRecord) (now : Nat) : ScrubRecord :=
  { r with phase := .idle, cursor := none, lastCompletedUnixNs := now }

/-- Every way in which an action can change the root, its record and the instances. -/
inductive ScrubChange (w : ScrubWorld) : ScrubEvent → ScrubWorld → Prop where
  | stay : ScrubChange w .quiet w
  | other (store : RankState) : ScrubChange w .quiet { w with store := store }
  | openCycle (state : ScrubRecord) (save : SaveOutcome) (event : ScrubEvent)
      (hstate : startCycle w.current.record = some state)
      (hevent : event = .opened state.cycle ∨ event = .quiet ∧ save = .failsBeforeRename) :
      ScrubChange w event (w.save ⟨state, w.current.request⟩ save)
  | request (key : Digest) (state : ScrubRecord) (save : SaveOutcome) (event : ScrubEvent)
      (hstate : requestScrub w.current.record key = .ok state)
      (hevent : event = .requested key w.nextRequest ∧ save = .saved ∨ event = .quiet) :
      ScrubChange w event
        { w.save ⟨state, w.nextRequest⟩ save with nextRequest := w.nextRequest + 1 }
  | begin (i : Nat) (step : StepState) (itemBudget payloadBudgetBytes : Nat)
      (hstep : beginStep w.store w.current.record itemBudget payloadBudgetBytes = .ok step) :
      ScrubChange w .quiet (w.setInstance i (.looping step))
  | stop (i : Nat) (step : StepState) (h : w.instances i = .looping step) :
      ScrubChange w .quiet (w.setInstance i (.closing step))
  | round (i : Nat) (step : StepState) (key : Digest) (rest : List Digest)
      (hooked readFails : Bool) (save : SaveOutcome) (event : ScrubEvent) (place : Instance)
      (h : w.instances i = .looping step) (hkey : step.remaining = key :: rest)
      (hheld : w.current.record = step.held) (hbusy : busy w.store key = false)
      (hevent : event = .attempted step.held.cycle key
          (scrubAttempt config hooked readFails w.store key).status ∧
          (step.target = none ∨ save = .failsBeforeRename) ∨
        event = .answered key w.current.request
          (scrubAttempt config hooked readFails w.store key).status ∧ step.target ≠ none ∧
          save ≠ .failsBeforeRename)
      (hplace : place = .outside ∨ save = .saved ∧ place = .looping
        { step.advance key (scrubAttempt config hooked readFails w.store key) with
          answered := step.target.map fun _ ↦ w.current.request }) :
      ScrubChange w event
        (({ w with store := (scrubAttempt config hooked readFails w.store key).store }.save
          (roundStored w step key (scrubAttempt config hooked readFails w.store key)) save
          ).setInstance i place)
  | close (i : Nat) (step : StepState) (h : w.instances i = .closing step) :
      ScrubChange w .quiet (w.setInstance i (.leaving step))
  | complete (i : Nat) (step : StepState) (now : Nat) (save : SaveOutcome) (place : Instance)
      (h : w.instances i = .closing step) (htarget : step.target = none) (hkeys : step.keys = [])
      (hphase : step.held.phase = .files) (hheld : w.current.record = step.held)
      (hplace : place = .outside ∨
        save = .saved ∧ place = .leaving { step with completed := true }) :
      ScrubChange w .quiet
        ((w.save ⟨step.held.complete now, w.current.request⟩ save).setInstance i place)
  | leave (i : Nat) (step : StepState) (h : w.instances i = .leaving step) :
      ScrubChange w (.returned step.held.cycle step.answered step.report)
        (w.setInstance i .outside)
  | abort (i : Nat) : ScrubChange w .quiet (w.setInstance i .outside)
  | crash (stored : Stored) (h : w.Holds stored) :
      ScrubChange w .quiet
        { w with current := stored, stale := [], instances := fun _ ↦ .outside }

private theorem scrubChange_round (w : ScrubWorld) (i : Nat) (step : StepState)
    (hooked cancelled readFails : Bool) (save : SaveOutcome) (h : w.instances i = .looping step) :
    ScrubChange config w (scrubRound config w i step hooked cancelled readFails save).2
      (scrubRound config w i step hooked cancelled readFails save).1 := by
  unfold scrubRound
  split
  · exact .stop i step h
  · next key rest hkey =>
    split
    · exact .stop i step h
    · split
      · exact .abort i
      · next state hload =>
        split
        · exact .stop i step h
        · next hheld =>
          split
          · exact .stop i step h
          · next hbusy =>
            have hheld : w.current.record = step.held := by
              rw [← load_ok hload]
              exact not_not.mp hheld
            have hbusy : busy w.store key = false := by simpa using hbusy
            cases save with
            | saved =>
              cases ht : step.target with
              | none =>
                exact .round i step key rest hooked readFails .saved _ _ h hkey hheld hbusy
                  (.inl ⟨rfl, .inl ht⟩) (.inr ⟨rfl, by rw [ht]⟩)
              | some t =>
                exact .round i step key rest hooked readFails .saved _ _ h hkey hheld hbusy
                  (.inr ⟨rfl, by rw [ht]; exact Option.some_ne_none t, SaveOutcome.noConfusion⟩)
                  (.inr ⟨rfl, by rw [ht]⟩)
            | failsBeforeRename =>
              refine .round i step key rest hooked readFails .failsBeforeRename _ _ h hkey hheld
                hbusy (.inl ⟨?_, .inr rfl⟩) (.inl rfl)
              cases step.target <;> rfl
            | failsAfterRename =>
              cases ht : step.target with
              | none =>
                exact .round i step key rest hooked readFails .failsAfterRename _ _ h hkey hheld
                  hbusy (.inl ⟨rfl, .inl ht⟩) (.inl rfl)
              | some t =>
                exact .round i step key rest hooked readFails .failsAfterRename _ _ h hkey hheld
                  hbusy
                  (.inr ⟨rfl, by rw [ht]; exact Option.some_ne_none t, SaveOutcome.noConfusion⟩)
                  (.inl rfl)

private theorem scrubChange_close (w : ScrubWorld) (i : Nat) (step : StepState) (now : Nat)
    (save : SaveOutcome) (h : w.instances i = .closing step) :
    ScrubChange config w .quiet (closeStep w i step now save) := by
  unfold closeStep
  split
  · next hdone =>
    split
    · exact .abort i
    · next state hload =>
      split
      · exact .close i step h
      · next hheld =>
        have hheld : w.current.record = step.held := by
          rw [← load_ok hload]
          exact not_not.mp hheld
        cases save with
        | saved =>
          exact .complete i step now .saved _ h hdone.1 hdone.2.1 hdone.2.2 hheld (.inr ⟨rfl, rfl⟩)
        | failsBeforeRename =>
          exact .complete i step now .failsBeforeRename _ h hdone.1 hdone.2.1 hdone.2.2 hheld
            (.inl rfl)
        | failsAfterRename =>
          exact .complete i step now .failsAfterRename _ h hdone.1 hdone.2.1 hdone.2.2 hheld
            (.inl rfl)
  · exact .close i step h

/-- Every action is one of these changes. -/
theorem scrubChange_act (w : ScrubWorld) (action : ScrubAction) :
    ScrubChange config w (scrubAct config w action).2 (scrubAct config w action).1 := by
  cases action with
  | other store => exact .other store
  | startCycle save =>
    unfold scrubAct
    dsimp only
    split
    · exact .stay
    · next state hload =>
      split
      · exact .stay
      · next state' hstate =>
        rw [load_ok hload] at hstate
        refine .openCycle state' save _ hstate ?_
        by_cases hs : save = .failsBeforeRename
        · exact .inr ⟨if_pos hs, hs⟩
        · exact .inl (if_neg hs)
  | request key save =>
    unfold scrubAct
    dsimp only
    split
    · exact .stay
    · next state hstate =>
      obtain ⟨loaded, hload, hstate⟩ := bind_ok hstate
      rw [load_ok hload] at hstate
      refine .request key state save _ hstate ?_
      by_cases hs : save = .saved
      · exact .inl ⟨if_pos hs, hs⟩
      · exact .inr (if_neg hs)
  | beginStep i itemBudget payloadBudgetBytes =>
    unfold scrubAct
    dsimp only
    split
    · next step _ hstep => exact .begin i step itemBudget payloadBudgetBytes hstep
    · exact .stay
  | scrubKey i hooked cancelled readFails save =>
    unfold scrubAct
    dsimp only
    split
    · next step h => exact scrubChange_round config w i step hooked cancelled readFails save h
    · exact .stay
  | completeCycle i now save =>
    unfold scrubAct
    dsimp only
    split
    · next step h => exact scrubChange_close config w i step now save h
    · exact .stay
  | leaveStep i =>
    unfold scrubAct
    dsimp only
    split
    · next step h => exact .leave i step h
    · exact .stay
  | abort i => exact .abort i
  | crash survivor =>
    refine .crash _ ?_
    rw [List.getD_eq_getElem?_getD]
    cases hs : (w.current :: w.stale)[survivor]? with
    | none => exact w.holds_current
    | some stored => exact List.mem_cons.mp (List.mem_of_getElem? hs)

variable {config}

/-- Every recorded step is an action on the world before it. -/
theorem ScrubRun.act_of_mem {w w' : ScrubWorld} {steps : List ScrubStep}
    (h : ScrubRun config w steps w') {step : ScrubStep} (hs : step ∈ steps) :
    scrubAct config step.before step.action = (step.after, step.event) := by
  induction h with
  | nil => cases hs
  | snoc _ action ih =>
    rcases List.mem_append.mp hs with hs | hs
    · exact ih hs
    · rw [List.mem_singleton.mp hs]

/-- Every recorded step is one of the changes. -/
theorem ScrubRun.change_of_mem {w w' : ScrubWorld} {steps : List ScrubStep}
    (h : ScrubRun config w steps w') {step : ScrubStep} (hs : step ∈ steps) :
    ScrubChange config step.before step.event step.after := by
  have hchange := scrubChange_act config step.before step.action
  rw [h.act_of_mem hs] at hchange
  exact hchange

end

/-! ### A sample root -/

/-- A store with one full group. -/
def scrubSampleConfig : StoreConfig :=
  ⟨Layout.fullSampleLayout, 64, fun _ ↦ 1, Layout.sampleLayer.pageSizeBytes_pos⟩

/-- A root with one file, before its first cycle. -/
def scrubSampleWorld : ScrubWorld where
  store := {
    files := .ofItems [(.ofNat 5, ⟨some ⟨.data, none, 256⟩, true, 1, 100, 0⟩)]
    markers := .empty
    pins := []
    reporter := .create Quorum.sampleReporterConfig }
  current := ⟨.empty, 0⟩
  stale := []
  nextRequest := 1
  instances := fun _ ↦ .outside

/-- The sample starts without a request and without a cycle. -/
theorem fresh_scrubSampleWorld : scrubSampleWorld.Fresh := ⟨rfl, Nat.zero_lt_one, fun _ ↦ rfl⟩

end SpoolCache.Store
