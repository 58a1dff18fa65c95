import SpoolCache.Store.SmallFiles

/-!
# Reserved generation epochs

`reserve_inventory_generation_epoch`, `rank_store.py:477–587`. A call reads the last epoch of the
rank root, chooses a larger one and writes it before it returns; a sentry tells a first call from
one whose state was lost. Every epoch that a call returns exceeds all that were returned before,
however the clock moves and wherever earlier calls failed or were cut off.
-/

namespace SpoolCache.Store

open SpoolCache.Base

/-- `generation.json` and its sentry `generation.required.json`. -/
inductive GenerationFile where
  | state
  | required
  deriving DecidableEq

/-- The part of the state directory that holds the two files. -/
abbrev GenerationDirectory := SmallDirectory GenerationFile

/-- `_MAX_GENERATION_STATE_BYTES`, `rank_store.py:38`. -/
def maxGenerationStateBytes : Nat := 4096

/-- `_MAX_GENERATION_EPOCH`, `rank_store.py:41`. -/
def maxGenerationEpoch : Nat := 2 ^ 63 - 1

/-- `_PERSISTENT_GENERATION_EPOCH_BASE`, `rank_store.py:44`. -/
def persistentGenerationEpochBase : Nat := 2 ^ 62

/-- `GENERATION_STATE_SCHEMA`, `rank_store.py:26`. -/
def generationStateSchema : String := "spoolcache-generation/v1"

/-- `GENERATION_REQUIRED_SCHEMA`, `rank_store.py:32`. -/
def generationRequiredSchema : String := "spoolcache-generation-required/v1"

/-- What is written to the state file. -/
def generationState (epoch : Nat) : Json :=
  .obj [("epoch", .int epoch), ("schema", .str generationStateSchema)]

/-- What is written to the sentry. -/
def generationRequired : Json := .obj [("schema", .str generationRequiredSchema)]

/-- The bytes of a state file: canonical JSON and a line feed. -/
def smallJsonLine (v : Json) : Bytes := v.canonicalJson ++ Json.encodeText ['\n']

/-- The check of a sentry that is there, `rank_store.py:499–516`. -/
def checkRequired (f : SmallFile) : Except PyError Unit :=
  if f.regular = false then
    .error (.valueError "inventory generation sentry is not a regular file")
  else
    match readSmallJson maxGenerationStateBytes f with
    | .error _ => .error (.valueError "inventory generation sentry is invalid")
    | .ok payload =>
      if payload.hasFields ["schema"] = true ∧
          payload.textField? "schema" = some generationRequiredSchema then
        .ok ()
      else .error (.valueError "inventory generation sentry schema is unsupported")

/-- The epoch of a state file that is there, `rank_store.py:525–546`. -/
def previousEpoch (f : SmallFile) : Except PyError Nat :=
  if f.regular = false then
    .error (.valueError "inventory generation state is not a regular file")
  else
    match readSmallJson maxGenerationStateBytes f with
    | .error _ => .error (.valueError "inventory generation state is invalid")
    | .ok payload =>
      if payload.hasFields ["schema", "epoch"] = false ∨
          payload.textField? "schema" ≠ some generationStateSchema then
        .error (.valueError "inventory generation state schema is unsupported")
      else
        match payload.field? "epoch" with
        | some (.int previous) =>
          if 0 < previous ∧ previous ≤ maxGenerationEpoch then .ok previous.toNat
          else .error (.valueError "inventory generation epoch is invalid")
        | _ => .error (.valueError "inventory generation epoch is invalid")

/-- The next epoch, `rank_store.py:547–571`. -/
def nextEpoch (previous : Nat) (clock : Int) : Except PyError Nat :=
  if maxGenerationEpoch ≤ previous then
    .error (.runtimeError "inventory generation epoch overflowed")
  else if ¬ (0 < clock ∧ clock ≤ maxGenerationEpoch) then
    .error (.runtimeError "system clock cannot seed inventory generation")
  else if (maxGenerationEpoch : Int) - persistentGenerationEpochBase < clock then
    .error (.runtimeError "system clock exceeds inventory generation domain")
  else
    let persistentClock := persistentGenerationEpochBase + clock.toNat
    if previous < persistentGenerationEpochBase then
      .ok (max persistentClock (persistentGenerationEpochBase + previous))
    else .ok (max (previous + 1) persistentClock)

/-- Whether the sentry is there, `rank_store.py:493–516`. -/
def readRequired : SmallProgram GenerationFile Bool := do
  let metadata ← .look (.osError "lstat") fun d ↦ .ok (d.get? (.target .required))
  match metadata with
  | none => pure false
  | some f => .look (.valueError "inventory generation sentry is invalid") fun _ ↦
      (checkRequired f).map fun _ ↦ true

/-- The epoch before this call, `rank_store.py:517–546`. -/
def readPrevious (requiredExists : Bool) : SmallProgram GenerationFile Nat := do
  let metadata ← .look (.osError "lstat") fun d ↦ .ok (d.get? (.target .state))
  match metadata with
  | none =>
    if requiredExists then
      .raise (.valueError "inventory generation state is missing after initialization")
    else pure 0
  | some f => .look (.valueError "inventory generation state is invalid") fun _ ↦ previousEpoch f

/-- Writing the epoch, and the sentry after it, `rank_store.py:572–586`. -/
def writeEpoch (stateNonce requiredNonce : Nat) (requiredExists : Bool) (epoch : Nat) :
    SmallProgram GenerationFile Nat := do
  atomicSmallWrite .state stateNonce (smallJsonLine (generationState epoch))
  if requiredExists then pure epoch
  else do
    atomicSmallWrite .required requiredNonce (smallJsonLine generationRequired)
    pure epoch

/-- `reserve_inventory_generation_epoch`, `rank_store.py:477–587`, with the lock held; `clock` is
what the system clock says and the nonces are drawn for the two temporaries. -/
def reserveInventoryGenerationEpoch (clock : Int) (stateNonce requiredNonce : Nat) :
    SmallProgram GenerationFile Nat := do
  cleanupAtomicWriteTemporaries .state
  cleanupAtomicWriteTemporaries .required
  let requiredExists ← readRequired
  let previous ← readPrevious requiredExists
  match nextEpoch previous clock with
  | .error e => .raise e
  | .ok epoch => writeEpoch stateNonce requiredNonce requiredExists epoch

/-! ### One call -/

private theorem loads_generationState (epoch : Nat) :
    Json.loads (smallJsonLine (generationState epoch)) = some (generationState epoch) := by
  refine Json.loads_canonicalJson ?_ ['\n'] (.inr rfl)
  simp only [Json.Canonical, Json.CanonicalFields, and_true, List.map_cons, List.map_nil]
  decide

/-- A state file that was written for an epoch is never read as another. -/
theorem previousEpoch_written {epoch p : Nat} {f : SmallFile}
    (hf : f.bytes = smallJsonLine (generationState epoch)) (h : previousEpoch f = .ok p) :
    p = epoch := by
  unfold previousEpoch at h
  split at h
  · cases h
  unfold readSmallJson at h
  split at h
  · next hread =>
    split at hread
    · cases h
    · cases h
  · next payload hread =>
    split at hread
    · cases hread
    rw [hf, loads_generationState] at hread
    cases hread
    split at h
    · cases h
    change (if 0 < (epoch : Int) ∧ (epoch : Int) ≤ maxGenerationEpoch then
      Except.ok (epoch : Int).toNat else _) = _ at h
    split at h
    · cases h
      rfl
    · cases h

private theorem nextEpoch_ok {previous epoch : Nat} {clock : Int}
    (h : nextEpoch previous clock = .ok epoch) :
    previous < epoch ∧ previous < maxGenerationEpoch ∧ persistentGenerationEpochBase ≤ epoch ∧
      epoch ≤ maxGenerationEpoch := by
  unfold nextEpoch at h
  unfold maxGenerationEpoch persistentGenerationEpochBase at *
  split at h
  · cases h
  split at h
  · cases h
  split at h
  · cases h
  dsimp only at h
  split at h
  · cases h
    omega
  · cases h
    omega

/-- The value of the state file is that of an epoch not below `last`, or there was none. -/
def Floor (last : Nat) : GenerationFile → Option SmallFile → Prop
  | .state, none => last = 0
  | .state, some f => f.synced = true ∧ ∀ p, previousEpoch f = .ok p → last ≤ p
  | .required, _ => True

/-- Every value that the state file may have is that of an epoch not below `last`. -/
abbrev Reserved (last : Nat) : GenerationDirectory → Prop := Targets (Floor last)

/-- What a call reads from the two files. -/
def Reads (state required : Option SmallFile) (previous : Nat) : Prop :=
  (state = none ∧ required = none ∧ previous = 0) ∨
    ∃ f, state = some f ∧ previousEpoch f = .ok previous

/-- The file that a call writes. -/
def stateFileOf (epoch : Nat) : SmallFile := ⟨true, smallJsonLine (generationState epoch), true⟩

private theorem floor_stateFileOf (epoch : Nat) : Floor epoch .state (some (stateFileOf epoch)) :=
  ⟨rfl, fun _ hp ↦ (previousEpoch_written rfl hp).ge⟩

private theorem Floor.mono {last last' : Nat} (hl : last' ≤ last) {v : Option SmallFile}
    (h : Floor last .state v) : Floor last' .state v := by
  cases v with
  | none =>
    change last' = 0
    change last = 0 at h
    omega
  | some f => exact ⟨h.1, fun p hp ↦ hl.trans (h.2 p hp)⟩

/-- The current values of the two files. -/
def Current (state required : Option SmallFile) (d : GenerationDirectory) : Prop :=
  d.get? (.target .state) = state ∧ d.get? (.target .required) = required

private theorem settled_current (state required : Option SmallFile) : Settled
    (Current state required) := by
  refine ⟨fun d t nonce h ↦ ?_, fun d h ↦ h⟩
  refine ⟨(d.get?_remove _ _).trans ?_, (d.get?_remove _ _).trans ?_⟩
  · rw [if_neg (fun he ↦ by cases he)]
    exact h.1
  · rw [if_neg (fun he ↦ by cases he)]
    exact h.2

/-- What a call reads is not below `last`, when the state file that it finds is not. -/
theorem Reads.le {last previous : Nat} {state required : Option SmallFile}
    (h : Reads state required previous) (hfloor : Floor last .state state) : last ≤ previous := by
  rcases h with ⟨rfl, -, rfl⟩ | ⟨f, rfl, hp⟩
  · exact Nat.le_of_eq hfloor
  · exact hfloor.2 previous hp

private theorem runs_readRequired {I : GenerationDirectory → Prop}
    (state required : Option SmallFile) :
    Program.Runs I (Current state required) readRequired
      fun e d ↦ (e = false → required = none) ∧ Current state required d := by
  refine Program.Runs.bind (X := fun f d ↦ f = required ∧ Current state required d)
    (Program.runs_look ?_) fun f ↦ ?_
  · intro d f _ hd hf
    cases hf
    exact ⟨hd.2, hd⟩
  · cases f with
    | none => exact Program.runs_pure fun d _ hd ↦ ⟨fun _ ↦ hd.1.symm, hd.2⟩
    | some f =>
      refine Program.runs_look fun d b _ hd hb ↦ ⟨fun hfalse ↦ ?_, hd.2⟩
      subst hfalse
      cases hc : checkRequired f with
      | error _ =>
        rw [hc] at hb
        cases hb
      | ok _ =>
        rw [hc] at hb
        cases hb

private theorem runs_readPrevious {I : GenerationDirectory → Prop}
    (state required : Option SmallFile) (e : Bool) :
    Program.Runs I (fun d ↦ (e = false → required = none) ∧ Current state required d)
      (readPrevious e) fun previous _ ↦ Reads state required previous := by
  refine Program.Runs.bind (X := fun f _ ↦ f = state ∧ (e = false → required = none))
    (Program.runs_look ?_) fun f ↦ ?_
  · intro d f _ hd hf
    cases hf
    exact ⟨hd.2.1, hd.1⟩
  · cases f with
    | none =>
      dsimp only
      split
      · exact Program.runs_raise _
      · next he =>
        exact Program.runs_pure fun d _ hd ↦ .inl ⟨hd.1.symm, hd.2 (by simpa using he), rfl⟩
    | some f => exact Program.runs_look fun d p _ hd hp ↦ .inr ⟨f, hd.1.symm, hp⟩

/-- After its first write a call has the state file for good, whatever the sentry is. -/
def Written (last epoch : Nat) (t : GenerationFile) (v : Option SmallFile) : Prop :=
  Floor last t v ∧ (t = .state → v = some (stateFileOf epoch))

private theorem reserved_of_state {d : GenerationDirectory} {epoch : Nat}
    (h : ∀ v, d.Possible (.target .state) v → v = some (stateFileOf epoch)) :
    Reserved epoch d := by
  intro t v hv
  cases t with
  | state =>
    rw [h v hv]
    exact floor_stateFileOf epoch
  | required => exact trivial

private theorem runs_writeEpoch {last epoch : Nat} (hl : last ≤ epoch)
    (stateNonce requiredNonce : Nat) (e : Bool) :
    Program.Runs (Reserved last) (fun _ ↦ True) (writeEpoch stateNonce requiredNonce e epoch)
      fun epoch' d ↦ epoch' = epoch ∧ Reserved epoch d := by
  have hfirst : Program.Runs (Reserved last) (fun _ ↦ True)
      (atomicSmallWrite .state stateNonce (smallJsonLine (generationState epoch)))
      fun _ d ↦ ∀ v, d.Possible (.target .state) v → v = some (stateFileOf epoch) :=
    runs_atomicSmallWrite _ _ _ ((floor_stateFileOf epoch).mono hl)
  have hsecond : Program.Runs (Targets (Written last epoch)) (fun _ ↦ True)
      (atomicSmallWrite .required requiredNonce (smallJsonLine generationRequired)) fun _ _ ↦ True :=
    (runs_atomicSmallWrite _ _ _ ⟨trivial, fun h ↦ (by cases h)⟩).mono fun _ _ _ _ ↦ trivial
  refine hfirst.bind fun _ ↦ ?_
  cases e with
  | true => exact Program.runs_pure fun d _ hd ↦ ⟨rfl, reserved_of_state hd⟩
  | false =>
    refine Program.Runs.bind (X := fun _ d ↦ Reserved epoch d) ?_ fun _ ↦
      Program.runs_pure fun d _ hd ↦ ⟨rfl, hd⟩
    -- the second write touches only the sentry, so the first stays as it is
    intro m hm
    have h := hsecond m ⟨fun t v hv ↦ ⟨hm.1 t v hv, fun ht ↦ hm.2 v (ht ▸ hv)⟩, trivial⟩
    exact ⟨fun t v hv ↦ (h.1 t v hv).1, fun _ _ ↦ reserved_of_state fun v hv ↦ (h.1 .state v hv).2 rfl⟩

/-- A call writes the epoch that follows the one it read, and returns what the write returns. -/
theorem runs_reserve_of {I : GenerationDirectory → Prop} (hI : Settled I) (clock : Int)
    (stateNonce requiredNonce : Nat) {state required : Option SmallFile}
    {X : Nat → GenerationDirectory → Prop}
    (hwrite : ∀ previous epoch e, Reads state required previous →
      nextEpoch previous clock = .ok epoch →
      Program.Runs I (fun _ ↦ True) (writeEpoch stateNonce requiredNonce e epoch) X) :
    Program.Runs I (Current state required)
      (reserveInventoryGenerationEpoch clock stateNonce requiredNonce)
      fun epoch d ↦ X epoch d ∧ ∃ previous next, Reads state required previous ∧
        nextEpoch previous clock = .ok next := by
  have hclean : ∀ t, Program.Runs I (Current state required)
      (cleanupAtomicWriteTemporaries t) fun _ ↦ Current state required := fun t ↦
    (Program.Runs.frame (runs_cleanup (hI.and (settled_current state required)) t)).mono
      fun _ _ _ h ↦ h.1
  refine (hclean .state).bind fun _ ↦ (hclean .required).bind fun _ ↦ ?_
  refine (runs_readRequired state required).bind fun e ↦
    (runs_readPrevious state required e).bind fun previous ↦ ?_
  cases hn : nextEpoch previous clock with
  | error error => exact Program.runs_raise error
  | ok epoch =>
    -- the facts about what was read do not speak about the directory any more
    intro m hm
    have h := hwrite previous epoch e hm.2 hn m ⟨hm.1, trivial⟩
    exact ⟨h.1, fun epoch' he ↦ ⟨h.2 epoch' he, previous, epoch, hm.2, hn⟩⟩

/-- However a call ends, no possible value of the state file is below `last`. When it returns an
epoch, that epoch follows the one it read, and no possible value is below it. -/
theorem runs_reserve (last : Nat) (clock : Int) (stateNonce requiredNonce : Nat)
    (state required : Option SmallFile) :
    Program.Runs (Reserved last) (Current state required)
      (reserveInventoryGenerationEpoch clock stateNonce requiredNonce)
      fun epoch d ↦ Reserved epoch d ∧ ∃ previous, last ≤ previous ∧
        nextEpoch previous clock = .ok epoch := by
  intro m hm
  have hfloor : Floor last .state state := by
    rw [← hm.2.1]
    exact hm.1 .state _ (m.state.possible_get? _)
  have hrun : Program.Runs (Reserved last) (Current state required)
      (reserveInventoryGenerationEpoch clock stateNonce requiredNonce) _ :=
    runs_reserve_of settled_targets clock stateNonce requiredNonce
      (X := fun epoch d ↦ Reserved epoch d ∧ ∃ previous, last ≤ previous ∧
        nextEpoch previous clock = .ok epoch) fun previous epoch e hreads hnext ↦ by
      have hle := hreads.le hfloor
      refine (runs_writeEpoch (hle.trans (nextEpoch_ok hnext).1.le) stateNonce requiredNonce e).mono
        ?_
      rintro _ d - ⟨rfl, hd⟩
      exact ⟨hd, previous, hle, hnext⟩
  exact (hrun.mono fun _ _ _ h ↦ h.1) m hm

private theorem uncut_reserve (clock : Int) (stateNonce requiredNonce : Nat) :
    (reserveInventoryGenerationEpoch clock stateNonce requiredNonce).Uncut := by
  refine (uncut_cleanup _).bind fun _ ↦ (uncut_cleanup _).bind fun _ ↦ ?_
  refine Program.Uncut.bind ?_ fun e ↦ Program.Uncut.bind ?_ fun previous ↦ ?_
  · refine (Program.uncut_call _ _).bind fun f ↦ ?_
    cases f with
    | none => exact Program.uncut_pure false
    | some f => exact Program.uncut_call _ _
  · refine (Program.uncut_call _ _).bind fun f ↦ ?_
    cases f with
    | none =>
      dsimp only
      split
      · exact Program.uncut_raise _
      · exact Program.uncut_pure 0
    | some f => exact Program.uncut_call _ _
  · split
    · exact Program.uncut_raise _
    · refine (uncut_atomicSmallWrite _ _ _).bind fun _ ↦ ?_
      split
      · exact Program.uncut_pure _
      · exact (uncut_atomicSmallWrite _ _ _).bind fun _ ↦ Program.uncut_pure _

/-! ### Every run -/

/-- A rank root that has no generation state, or one from before the persistent domain. -/
structure LegacyRoot (d : GenerationDirectory) : Prop where
  durable : ∀ name, d.stale name = []
  required : d.get? (.target .required) = none
  state : ∀ f, d.get? (.target .state) = some f → f.synced = true ∧
    ∃ epoch < persistentGenerationEpochBase, previousEpoch f = .ok epoch

/-- Runs of calls, each of which may fail or be cut off anywhere, and of crashes; the list holds
the epochs that calls have returned. -/
inductive Reservations (start : GenerationDirectory) : List Nat → GenerationDirectory → Prop where
  | start : Reservations start [] start
  | returned {values : List Nat} {d : GenerationDirectory} (h : Reservations start values d)
      (clock : Int) (stateNonce requiredNonce : Nat) (faults : List Fault) (epoch : Nat)
      (m : Machine GenerationDirectory)
      (hcall : reserveInventoryGenerationEpoch clock stateNonce requiredNonce ⟨faults, d⟩ =
        (.returned epoch, m)) :
      Reservations start (values ++ [epoch]) m.state
  | stopped {values : List Nat} {d : GenerationDirectory} (h : Reservations start values d)
      (clock : Int) (stateNonce requiredNonce : Nat) (faults : List Fault)
      (outcome : Outcome PyError Nat) (m : Machine GenerationDirectory)
      (hcall : reserveInventoryGenerationEpoch clock stateNonce requiredNonce ⟨faults, d⟩ =
        (outcome, m)) (hstop : ∀ epoch, outcome ≠ .returned epoch) :
      Reservations start values m.state
  | crash {values : List Nat} {d d' : GenerationDirectory} (h : Reservations start values d)
      (hcrash : Directory.Crash SmallFile.Decays d d') : Reservations start values d'

/-- No epoch is left above the one of the state file. -/
def Exhausted (d : GenerationDirectory) : Prop :=
  ∃ f, d.get? (.target .state) = some f ∧ previousEpoch f = .ok maxGenerationEpoch

/-- The sentry is there, and the state file is missing or invalid. -/
def StateLost (d : GenerationDirectory) : Prop :=
  d.get? (.target .required) ≠ none ∧
    ∀ f epoch, d.get? (.target .state) = some f → previousEpoch f ≠ .ok epoch

private theorem stateLost_of_missing {d : GenerationDirectory}
    (hstate : d.get? (.target .state) = none)
    (hrequired : (d.get? (.target .required)).isSome = true) : StateLost d := by
  refine ⟨fun he ↦ ?_, fun f epoch hf ↦ ?_⟩
  · rw [he] at hrequired
    cases hrequired
  · rw [hstate] at hf
    cases hf

private theorem previousEpoch_congr {f g : SmallFile} (hr : g.regular = f.regular)
    (hb : g.bytes = f.bytes) : previousEpoch g = previousEpoch f := by
  unfold previousEpoch readSmallJson
  rw [hr, hb]

private theorem Reserved.crash {last : Nat} {d d' : GenerationDirectory} (h : Reserved last d)
    (hc : Directory.Crash SmallFile.Decays d d') : Reserved last d' := by
  intro t v' hv'
  obtain ⟨v, hv, hrel⟩ := hc.possible hv'
  have hfloor := h t v hv
  cases t with
  | required => exact trivial
  | state =>
    cases hrel with
    | none => exact hfloor
    | some hdecay =>
      refine ⟨hdecay.2.1, fun p hp ↦ hfloor.2 p ?_⟩
      rw [← hp]
      exact (previousEpoch_congr hdecay.1 (hdecay.2.2 hfloor.1)).symm

private theorem LegacyRoot.reserved {d : GenerationDirectory} (h : LegacyRoot d) :
    Reserved 0 d := by
  intro t v hv
  rcases hv with rfl | hv
  · cases t with
    | required => exact trivial
    | state =>
      cases hs : d.get? (.target .state) with
      | none => exact rfl
      | some f => exact ⟨(h.state f hs).1, fun p _ ↦ Nat.zero_le p⟩
  · rw [h.durable] at hv
    cases hv

/-- Along a run the returned epochs increase, and no possible value of the state file is below
the last of them. -/
theorem Reservations.reserved {start d : GenerationDirectory} {values : List Nat}
    (h0 : LegacyRoot start) (h : Reservations start values d) :
    values.Pairwise (· < ·) ∧
      (∀ epoch ∈ values, persistentGenerationEpochBase ≤ epoch ∧ epoch ≤ maxGenerationEpoch) ∧
      ∃ last, (∀ epoch ∈ values, epoch ≤ last) ∧ Reserved last d := by
  induction h with
  | start => exact ⟨.nil, fun _ h ↦ (by cases h), 0, fun _ h ↦ (by cases h), h0.reserved⟩
  | @returned values d _ clock stateNonce requiredNonce faults epoch m hcall ih =>
    obtain ⟨hsorted, hrange, last, hlast, hres⟩ := ih
    have hrun := runs_reserve last clock stateNonce requiredNonce _ _ ⟨faults, d⟩ ⟨hres, rfl, rfl⟩
    rw [hcall] at hrun
    obtain ⟨hres', previous, hprev, hnext⟩ := hrun.2 epoch rfl
    obtain ⟨hlt, -, hlow, hhigh⟩ := nextEpoch_ok hnext
    refine ⟨?_, ?_, epoch, ?_, hres'⟩
    · rw [List.pairwise_append]
      refine ⟨hsorted, List.pairwise_singleton _ _, ?_⟩
      intro a ha b hb
      rw [List.mem_singleton.mp hb]
      exact ((hlast a ha).trans hprev).trans_lt hlt
    · intro e he
      rcases List.mem_append.mp he with he | he
      · exact hrange e he
      · rw [List.mem_singleton.mp he]
        exact ⟨hlow, hhigh⟩
    · intro e he
      rcases List.mem_append.mp he with he | he
      · exact ((hlast e he).trans hprev).trans hlt.le
      · exact (List.mem_singleton.mp he).le
  | @stopped values d _ clock stateNonce requiredNonce faults outcome m hcall _ ih =>
    obtain ⟨hsorted, hrange, last, hlast, hres⟩ := ih
    have hrun := runs_reserve last clock stateNonce requiredNonce _ _ ⟨faults, d⟩ ⟨hres, rfl, rfl⟩
    rw [hcall] at hrun
    exact ⟨hsorted, hrange, last, hlast, hrun.1⟩
  | crash _ hcrash ih =>
    obtain ⟨hsorted, hrange, last, hlast, hres⟩ := ih
    exact ⟨hsorted, hrange, last, hlast, hres.crash hcrash⟩

/-- Whatever directory it is called on, a call on a state without a larger epoch, or on a lost
state, does not return. -/
theorem reserve_ne_returned {d : GenerationDirectory} (h : Exhausted d ∨ StateLost d)
    (clock : Int) (stateNonce requiredNonce : Nat) (faults : List Fault) (epoch : Nat) :
    (reserveInventoryGenerationEpoch clock stateNonce requiredNonce ⟨faults, d⟩).1 ≠
      .returned epoch := by
  intro he
  have hrun := @runs_reserve_of (fun _ ↦ True) ⟨fun _ _ _ _ ↦ trivial, fun _ _ ↦ trivial⟩ clock
    stateNonce requiredNonce _ _ (fun _ _ ↦ True)
    (fun _ _ _ _ _ _ _ ↦ ⟨trivial, fun _ _ ↦ trivial⟩) ⟨faults, d⟩ ⟨trivial, rfl, rfl⟩
  obtain ⟨-, previous, next, hreads, hnext⟩ := hrun.2 epoch he
  obtain ⟨-, hmax, -⟩ := nextEpoch_ok hnext
  rcases h with ⟨f, hf, hp⟩ | ⟨hreq, hstate⟩
  · rcases hreads with ⟨hs, -⟩ | ⟨g, hg, hp'⟩
    · rw [hf] at hs
      cases hs
    · rw [hf, Option.some.injEq] at hg
      rw [hg, hp', Except.ok.injEq] at hp
      omega
  · rcases hreads with ⟨-, hr, -⟩ | ⟨g, hg, hp'⟩
    · exact hreq hr
    · exact hstate g previous hg hp'

/-- The epochs that calls return increase strictly from a fresh or legacy root on, lie in the
persistent domain and so exceed every legacy epoch. On any directory, from whatever hand, a call
that cannot find a larger epoch raises, and so does one whose state file was lost or is invalid
while the sentry is there. -/
theorem reserved_epochs_strictly_increase {start d : GenerationDirectory} {values : List Nat}
    (h0 : LegacyRoot start) (h : Reservations start values d) :
    values.Pairwise (· < ·) ∧
      (∀ epoch ∈ values, 2 ^ 62 ≤ epoch ∧ epoch ≤ 2 ^ 63 - 1 ∧
        ∀ legacy < 2 ^ 62, legacy < epoch) ∧
      ∀ (found : GenerationDirectory) (clock : Int) (stateNonce requiredNonce : Nat)
        (faults : List Fault), .crash ∉ faults → Exhausted found ∨ StateLost found →
        ∃ error, (reserveInventoryGenerationEpoch clock stateNonce requiredNonce
          ⟨faults, found⟩).1 = .raised error := by
  obtain ⟨hsorted, hrange, -⟩ := h.reserved h0
  refine ⟨hsorted, ?_, ?_⟩
  · intro epoch he
    obtain ⟨hlow, hhigh⟩ := hrange epoch he
    exact ⟨hlow, hhigh, fun legacy hl ↦ hl.trans_le hlow⟩
  · intro found clock stateNonce requiredNonce faults hcut hlost
    have hne := reserve_ne_returned hlost clock stateNonce requiredNonce faults
    have huncut := (uncut_reserve clock stateNonce requiredNonce ⟨faults, found⟩ hcut).1
    cases ho : (reserveInventoryGenerationEpoch clock stateNonce requiredNonce
        ⟨faults, found⟩).1 with
    | returned epoch => exact absurd ho (hne epoch)
    | raised error => exact ⟨error, rfl⟩
    | crashed => exact absurd ho huncut

private theorem Reservations.of_returned {start d : GenerationDirectory} {values : List Nat}
    (h : Reservations start values d) {clock : Int} {stateNonce requiredNonce : Nat}
    {faults : List Fault} {epoch : Nat}
    (hret : (reserveInventoryGenerationEpoch clock stateNonce requiredNonce ⟨faults, d⟩).1 =
      .returned epoch) :
    Reservations start (values ++ [epoch])
      (reserveInventoryGenerationEpoch clock stateNonce requiredNonce ⟨faults, d⟩).2.state :=
  h.returned clock stateNonce requiredNonce faults epoch _ (Prod.ext hret rfl)

/-- The first call of a fresh root, failing at the rename of its state file. -/
def failedReservation : Outcome PyError Nat × Machine GenerationDirectory :=
  reserveInventoryGenerationEpoch 9 0 1 ⟨List.replicate 7 .none ++ [.fail], .durable .empty⟩

/-- The call after it. -/
def secondReservation : Outcome PyError Nat × Machine GenerationDirectory :=
  reserveInventoryGenerationEpoch 5 2 3 ⟨[], failedReservation.2.state⟩

/-- A root with a sentry and no state file. -/
def lostReservations : GenerationDirectory :=
  (Directory.durable .empty).put (.target .required) ⟨true, smallJsonLine generationRequired, true⟩

/-- After a call that fails at its rename, the next one of a fresh root returns, and so does a
third one with the clock turned back. Without its state file a root gives no epoch. -/
theorem reserved_epochs_after_failure :
    ∃ d, Reservations (.durable .empty) [2 ^ 62 + 5, 2 ^ 62 + 6] d ∧
      [2 ^ 62 + 5, 2 ^ 62 + 6].Pairwise (· < ·) ∧
      (∀ epoch ∈ [2 ^ 62 + 5, 2 ^ 62 + 6], 2 ^ 62 ≤ epoch ∧ epoch ≤ 2 ^ 63 - 1 ∧
        ∀ legacy < 2 ^ 62, legacy < epoch) ∧
      StateLost lostReservations ∧
      ∃ error, (reserveInventoryGenerationEpoch 9 6 7 ⟨[], lostReservations⟩).1 =
        .raised error := by
  have h0 : LegacyRoot (.durable .empty) := ⟨fun _ ↦ rfl, rfl, fun f hf ↦ (by cases hf)⟩
  have hstop : ∀ epoch, failedReservation.1 ≠ .returned epoch := by
    have h : failedReservation.1 = .raised (.osError "rename") := by decide +kernel
    intro epoch he
    rw [h] at he
    cases he
  have hfirst : Reservations (.durable .empty) [] failedReservation.2.state :=
    .stopped .start 9 0 1 _ failedReservation.1 failedReservation.2 (Prod.eta _).symm hstop
  have hret : secondReservation.1 = .returned (2 ^ 62 + 5) := by decide +kernel
  have hsecond : Reservations (.durable .empty) [2 ^ 62 + 5] secondReservation.2.state :=
    hfirst.of_returned hret
  have hret' : (reserveInventoryGenerationEpoch 1 4 5 ⟨[], secondReservation.2.state⟩).1 =
      .returned (2 ^ 62 + 6) := by decide +kernel
  have hthird := hsecond.of_returned hret'
  have hnone : lostReservations.get? (.target .state) = none := by decide +kernel
  have hsome : (lostReservations.get? (.target .required)).isSome = true := by decide +kernel
  have hlost := stateLost_of_missing hnone hsome
  obtain ⟨hsorted, hrange, hraises⟩ := reserved_epochs_strictly_increase h0 hthird
  exact ⟨_, hthird, hsorted, hrange, hlost,
    hraises lostReservations 9 6 7 [] List.not_mem_nil (.inr hlost)⟩

end SpoolCache.Store
