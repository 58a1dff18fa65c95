import SpoolCache.Connector.Worker
import SpoolCache.Store.RankRefinement

/-!
# Runs on a root are runs on whole files

Operations of the owner of a root and of other processes, one section of the namespace lock after
the other, as calls on the directories and as functions on decoded files. A run of the calls has a
run of the functions with the same answers, and they end in related states. Nothing is cut off in
these runs, and only in publications may calls fail, one in each.
-/

namespace SpoolCache.Connector

open SpoolCache.Base SpoolCache.Base.Program SpoolCache.Prefix SpoolCache.Store
open TokenFileStore (FileDescriptor)

/-! ### Operations -/

/-- What a process does in a section of the namespace lock. -/
inductive RootOp where
  | commit (env : PublishEnv) (key : Digest) (header : TokenHeader) (input : CommitInput)
  | validChunk (key : Digest) (header : TokenHeader)
  | evict (key : Digest)
  | quarantine (key : Digest)
  | scrub (key : Digest)
  | acknowledge (keys : List Digest)
  | recover
  | lookup (entryId : Digest)
  | enterRestore (entryId : Digest)
  | exitRestore (view : Nat) (touched : Bool) (times : Nat → Nat)

def RootOp.isCommit : RootOp → Bool
  | .commit .. => true
  | _ => false

/-- An operation of the owner, with the hook, or of another process, and what becomes of its
calls. -/
structure RootCall where
  hooked : Bool
  faults : List Fault
  op : RootOp

/-- Only a publication meets a failing call, and one at most. -/
structure RootCall.Admissible (call : RootCall) : Prop where
  one : call.faults.count .fail ≤ 1
  others : call.op.isCommit = false → call.faults = []

/-- What an operation returns. -/
inductive Answer where
  | done
  | committed (desc : TokenFileDescriptor)
  | validated (desc : Option TokenFileDescriptor)
  | evicted (removed : Bool)
  | found (snapshot : Option TokenSnapshot)
  deriving DecidableEq

/-- A root, with the keys that live restore views of any process pin. -/
structure Root where
  disk : Disk
  pins : List (List Digest)

/-- The outcome of a program on the disk of a root. -/
def Root.after {α : Type} (r : Root) (answer : α → Answer) (pins : α → List (List Digest))
    (out : Outcome PyError α × Machine Disk) : Outcome PyError Answer × Root :=
  match out with
  | (.returned a, m) => (.returned (answer a), ⟨m.state, pins a⟩)
  | (.raised e, m) => (.raised e, ⟨m.state, r.pins⟩)
  | (.crashed, m) => (.crashed, ⟨m.state, r.pins⟩)

/-- The keys that a restore view pins. -/
def viewKeys (hit : Option TokenSnapshot) : List Digest :=
  match hit with
  | none => []
  | some snapshot => snapshot.objects.map TokenFileDescriptor.key

section

variable (store : TokenFileStore)

/-- An operation as calls on the root. -/
def RootCall.run (call : RootCall) (r : Root) : Outcome PyError Answer × Root :=
  let m : Machine Disk := ⟨call.faults, r.disk⟩
  match call.op with
  | .commit env key header input =>
    r.after (fun desc ↦ .committed desc.toTokenFileDescriptor) (fun _ ↦ r.pins)
      (commit store env key header input m)
  | .validChunk key header =>
    r.after (fun desc ↦ .validated (desc.map (·.toTokenFileDescriptor))) (fun _ ↦ r.pins)
      (validPath store call.hooked (pinned r.pins) key header m)
  | .evict key => r.after .evicted (fun _ ↦ r.pins) (evictPath (pinned r.pins key) key m)
  | .quarantine key =>
    r.after (fun _ ↦ .done) (fun _ ↦ r.pins)
      (quarantineBadPath call.hooked (pinned r.pins key) key m)
  | .scrub key =>
    r.after (fun _ ↦ .done) (fun _ ↦ r.pins) (scrubPath store call.hooked (pinned r.pins key) key m)
  | .acknowledge keys => r.after (fun _ ↦ .done) (fun _ ↦ r.pins) (Store.acknowledgeAbsent keys m)
  | .recover => r.after (fun _ ↦ .done) (fun _ ↦ r.pins) (recover m)
  | .lookup entryId =>
    r.after (fun hit ↦ .found (hit.map FileSnapshot.toTokenSnapshot)) (fun _ ↦ r.pins)
      (lookupPath store call.hooked (pinned r.pins) entryId m)
  | .enterRestore entryId =>
    r.after (fun hit ↦ .found (hit.map FileSnapshot.toTokenSnapshot))
      (fun hit ↦ r.pins ++ [viewKeys (hit.map FileSnapshot.toTokenSnapshot)])
      (lookupPath store call.hooked (pinned r.pins) entryId m)
  | .exitRestore view _ _ => (.returned .done, ⟨r.disk, r.pins.eraseIdx view⟩)

variable (config : StoreConfig)

/-- An operation as a function on whole files. -/
def RootCall.model (call : RootCall) (oracle : PublishOracle) (s : RankState) :
    RankState × Except PyError Answer :=
  match call.op with
  | .commit _ key header _ =>
    let (s, desc) := publishChunk config call.hooked oracle s key header
    (s, desc.map .committed)
  | .validChunk key header =>
    let (s, desc) := Store.validChunk config call.hooked s key header
    (s, .ok (.validated desc))
  | .evict key =>
    let (s, removed) := evict call.hooked s key
    (s, .ok (.evicted removed))
  | .quarantine key => (quarantineBad call.hooked s key, .ok .done)
  | .scrub key => (scrubFile config call.hooked s key, .ok .done)
  | .acknowledge keys => (acknowledgeAbsent s keys, .ok .done)
  | .recover => (s, .ok .done)
  | .lookup entryId =>
    let (s, hit) := lookup config call.hooked s entryId
    (s, hit.map .found)
  | .enterRestore entryId =>
    let (s, hit) := restoreView config call.hooked s entryId
    (s, hit.map .found)
  | .exitRestore view touched times => (exitRestore times s view touched, .ok .done)

/-- The outcome of calls and the answer of the function. Errors may differ in their texts, and a
publication may raise although its key is published. -/
def RootCall.Answers (call : RootCall) (r : Except PyError Answer) :
    Outcome PyError Answer → Prop
  | .returned a => r = .ok a
  | .raised e => (∃ e', r = .error e' ∧ (call.op.isCommit = false → Alike e e')) ∨
      .fail ∈ call.faults
  | .crashed => False

/-- A run of calls on a root that nothing cuts off. -/
inductive RootRun : Root → List (RootCall × Outcome PyError Answer) → Root → Prop where
  | done (r : Root) : RootRun r [] r
  | call {r r' : Root} {steps : List (RootCall × Outcome PyError Answer)} (call : RootCall)
      (hadmissible : call.Admissible) (hends : (call.run store r).1 ≠ .crashed)
      (hrest : RootRun (call.run store r).2 steps r') :
      RootRun r ((call, (call.run store r).1) :: steps) r'

/-- A run of the functions, with whatever the environment decides in publications. -/
inductive RankRun : RankState → List (RootCall × Except PyError Answer) → RankState → Prop where
  | done (s : RankState) : RankRun s [] s
  | call {s s' : RankState} {steps : List (RootCall × Except PyError Answer)} (call : RootCall)
      (oracle : PublishOracle) (hrest : RankRun (call.model config oracle s).1 steps s') :
      RankRun s ((call, (call.model config oracle s).2) :: steps) s'

end

/-! ### One call -/

section

variable {store : TokenFileStore} {r : Root} {s : RankState}

/-- The state of a root is one of whole files. -/
def Root.Shows (store : TokenFileStore) (r : Root) (s : RankState) : Prop :=
  Refines store r.pins r.disk s

private theorem shows_touchAll (times : Nat → Nat) {d : Disk} {pins : List (List Digest)}
    (keys : List Digest) {s : RankState} (h : Refines store pins d s) :
    Refines store pins d (touchAll times s keys).1 := by
  induction keys generalizing s times with
  | nil => exact h
  | cons key keys ih =>
    unfold touchAll
    split
    · exact h
    · next file hfile =>
      refine ih _ ⟨fun k ↦ ?_, h.markers, h.pins⟩
      change Option.Rel _ _ ((s.files.set key _).get? k)
      rw [OrderedDict.get?_set]
      have hrel := h.files k
      split
      · next hk =>
        rw [hk, hfile] at hrel
        generalize hv : d.files.get? key = v at hrel
        rw [hk, hv]
        cases hrel with
        | some hshows =>
          obtain ⟨modified, rfl⟩ := hshows
          refine .some ⟨times 1, ?_⟩
          unfold tokenFile
          split <;> rfl
      · exact hrel

private theorem returns_acknowledgeAbsent (keys : List Digest) {pins : List (List Digest)}
    (s : RankState) :
    Returns (fun d ↦ Refines store pins d s) (Store.acknowledgeAbsent keys)
      fun _ d ↦ Refines store pins d (acknowledgeAbsent s keys) := by
  induction keys generalizing s with
  | nil => exact returns_pure fun _ h ↦ h
  | cons key keys ih =>
    unfold Store.acknowledgeAbsent
    refine Returns.bind (returns_pathExists key) fun there ↦ returns_of_fact fun hthere ↦ ?_
    have hstep : acknowledgeAbsent s (key :: keys) =
        acknowledgeAbsent (if key ∈ s.files.keys then s else clearWithdrawal s key) keys := rfl
    rw [hstep, hthere]
    by_cases hmem : key ∈ s.files.keys
    · rw [decide_eq_true hmem, if_pos rfl, if_pos hmem]
      exact ih s
    · rw [decide_eq_false hmem, if_neg Bool.false_ne_true, if_neg hmem]
      refine Returns.bind (returns_fsyncManifestAbsence key) fun _ ↦ Returns.bind
        (returns_pathExists key) fun still ↦ returns_of_fact fun hstill ↦ ?_
      rw [hstill, decide_eq_false hmem, if_neg Bool.false_ne_true]
      exact Returns.bind (returns_clear key) fun _ ↦ ih _

/-- A program that undisturbed returns what the function does. -/
theorem after_of_returns {α : Type} {x : DiskProgram α} {answer : α → Answer} {s' : RankState}
    {b : Answer} (h : r.Shows store s) (hx : Returns (fun d ↦ Refines store r.pins d s) x
      fun a d ↦ answer a = b ∧ Refines store r.pins d s') :
    (r.after answer (fun _ ↦ r.pins) (x ⟨[], r.disk⟩)).2.Shows store s' ∧
      (r.after answer (fun _ ↦ r.pins) (x ⟨[], r.disk⟩)).1 = .returned b := by
  obtain ⟨a, d', hrun, hanswer, hd⟩ := hx r.disk h
  unfold Root.after
  rw [hrun]
  exact ⟨hd, congrArg _ hanswer⟩

/-- A call and the function agree: their states are related, and so are their answers. -/
def RootCall.Agrees (call : RootCall) (store : TokenFileStore) (r : Root)
    (out : RankState × Except PyError Answer) : Prop :=
  (call.run store r).2.Shows store out.1 ∧ call.Answers out.2 (call.run store r).1

private theorem agrees_commit (h : r.Shows store s) {hooked : Bool} {faults : List Fault}
    {env : PublishEnv} {key : Digest} {header : TokenHeader} {input : CommitInput}
    (hone : faults.count .fail ≤ 1)
    (hends : (RootCall.run store ⟨hooked, faults, .commit env key header input⟩ r).1 ≠ .crashed) :
    ∃ oracle, RootCall.Agrees ⟨hooked, faults, .commit env key header input⟩ store r
      (RootCall.model store.config ⟨hooked, faults, .commit env key header input⟩ oracle s) := by
  have hrun : (commit store env key header input ⟨faults, r.disk⟩).1 ≠ .crashed := by
    intro hcrashed
    apply hends
    unfold RootCall.run Root.after
    dsimp only
    generalize commit store env key header input ⟨faults, r.disk⟩ = out at hcrashed
    obtain ⟨o, m⟩ := out
    cases hcrashed
    rfl
  obtain ⟨oracle, hstate, hanswer⟩ := commit_refines h hooked env hone hrun
  refine ⟨oracle, ?_⟩
  unfold RootCall.Agrees RootCall.model RootCall.run Root.after
  dsimp only
  generalize commit store env key header input ⟨faults, r.disk⟩ = out at hstate hanswer
  generalize publishChunk store.config hooked oracle s key header = model at hstate hanswer
  obtain ⟨o, m⟩ := out
  obtain ⟨s', desc⟩ := model
  cases o with
  | returned found =>
    refine ⟨hstate, ?_⟩
    have hfound : desc = .ok found.toTokenFileDescriptor := hanswer
    rw [hfound]
    rfl
  | raised e =>
    refine ⟨hstate, ?_⟩
    rcases hanswer with ⟨e', rfl⟩ | hfail
    · exact .inl ⟨e', rfl, fun h ↦ (by cases h)⟩
    · exact .inr hfail
  | crashed => exact hanswer.elim

/-- A call that looks an entry up agrees with a function that ends as `lookup` does: the two go on
alike from the entry that was found, and the function raises what `lookup` raises. -/
theorem agrees_found (h : r.Shows store s) {call : RootCall} {entryId : Digest}
    {keep : Option FileSnapshot → List (List Digest)} {out : RankState × Except PyError Answer}
    (hrun : call.run store r = r.after (fun hit ↦ .found (hit.map FileSnapshot.toTokenSnapshot)) keep
      (lookupPath store call.hooked (pinned r.pins) entryId ⟨[], r.disk⟩))
    (hfound : ∀ hit d s',
      lookup store.config call.hooked s entryId = (s', .ok (hit.map FileSnapshot.toTokenSnapshot)) →
      Refines store r.pins d s' → Refines store (keep hit) d out.1 ∧
        out.2 = .ok (.found (hit.map FileSnapshot.toTokenSnapshot)))
    (hraised : ∀ e s', lookup store.config call.hooked s entryId = (s', .error e) →
      out = (s', .error e)) :
    call.Agrees store r out := by
  unfold RootCall.Agrees
  rw [hrun]
  rcases @follows_lookupPath store r.pins call.hooked entryId s r.disk h with
    ⟨hit, d', hpath, found, hlookup, rfl, hd⟩ | ⟨e, d', hpath, e', hlookup, halike, hd⟩
  · rw [hpath]
    exact hfound hit d' _ (Prod.ext rfl hlookup) hd
  · rw [hpath, hraised e' _ (Prod.ext rfl hlookup)]
    exact ⟨hd, .inl ⟨e', rfl, fun _ ↦ halike⟩⟩

/-- Every admissible call that ends agrees with the function for some choice of the environment. -/
theorem call_agrees (h : r.Shows store s) {call : RootCall} (hadmissible : call.Admissible)
    (hends : (call.run store r).1 ≠ .crashed) :
    ∃ oracle, call.Agrees store r (call.model store.config oracle s) := by
  obtain ⟨hooked, faults, op⟩ := call
  obtain ⟨hone, hothers⟩ := hadmissible
  have hanswers : ∀ (call : RootCall) (s' : RankState) (b : Answer),
      (call.run store r).2.Shows store s' ∧ (call.run store r).1 = .returned b →
        call.Agrees store r (s', .ok b) := by
    rintro call s' b ⟨hstate, hanswer⟩
    refine ⟨hstate, ?_⟩
    rw [hanswer]
    rfl
  cases op with
  | commit env key header input => exact agrees_commit h hone hends
  | validChunk key header =>
    obtain rfl : faults = [] := hothers rfl
    refine ⟨oracleOf .published [], hanswers _ _ _ (after_of_returns h ?_)⟩
    exact (returns_validPath key header).mono fun a d ⟨ha, hd⟩ ↦ ⟨congrArg _ ha, hd⟩
  | evict key =>
    obtain rfl : faults = [] := hothers rfl
    refine ⟨oracleOf .published [], hanswers _ _ _ (after_of_returns h ?_)⟩
    exact (returns_evictPath key).mono fun a d ⟨ha, hd⟩ ↦ ⟨congrArg _ ha, hd⟩
  | quarantine key =>
    obtain rfl : faults = [] := hothers rfl
    refine ⟨oracleOf .published [], hanswers _ _ _ (after_of_returns h ?_)⟩
    exact (returns_quarantineBadPath key).mono fun a d hd ↦ ⟨rfl, hd⟩
  | scrub key =>
    obtain rfl : faults = [] := hothers rfl
    refine ⟨oracleOf .published [], hanswers _ _ _ (after_of_returns h ?_)⟩
    exact (returns_scrubPath key).mono fun a d hd ↦ ⟨rfl, hd⟩
  | acknowledge keys =>
    obtain rfl : faults = [] := hothers rfl
    refine ⟨oracleOf .published [], hanswers _ _ _ (after_of_returns h ?_)⟩
    exact (returns_acknowledgeAbsent keys s).mono fun a d hd ↦ ⟨rfl, hd⟩
  | recover =>
    obtain rfl : faults = [] := hothers rfl
    refine ⟨oracleOf .published [], hanswers _ _ _ (after_of_returns h ?_)⟩
    exact returns_recover.mono fun a d hd ↦ ⟨rfl, hd⟩
  | lookup entryId =>
    obtain rfl : faults = [] := hothers rfl
    refine ⟨oracleOf .published [], agrees_found h rfl (fun hit d s' hfound hd ↦ ?_)
      fun e s' hraised ↦ ?_⟩
    · unfold RootCall.model
      dsimp only
      rw [hfound]
      exact ⟨hd, rfl⟩
    · unfold RootCall.model
      dsimp only
      rw [hraised]
      rfl
  | enterRestore entryId =>
    obtain rfl : faults = [] := hothers rfl
    refine ⟨oracleOf .published [], agrees_found h rfl (fun hit d s' hfound hd ↦ ?_)
      fun e s' hraised ↦ ?_⟩
    · unfold RootCall.model restoreView
      dsimp only
      rw [hfound]
      -- a miss pins an empty view
      cases hit with
      | none => exact ⟨⟨hd.files, hd.markers, congrArg (· ++ [[]]) hd.pins⟩, rfl⟩
      | some snapshot =>
        exact ⟨⟨hd.files, hd.markers,
          congrArg (· ++ [viewKeys (some snapshot.toTokenSnapshot)]) hd.pins⟩, rfl⟩
    · unfold RootCall.model restoreView
      dsimp only
      rw [hraised]
      rfl
  | exitRestore view touched times =>
    refine ⟨oracleOf .published [], ?_, rfl⟩
    have htouched : Refines store r.pins r.disk
        (if touched then (touch times s (s.pins.getD view [])).1 else s) := by
      split
      · exact shows_touchAll times _ h
      · exact h
    exact ⟨htouched.files, htouched.markers, congrArg (·.eraseIdx view) htouched.pins⟩

/-! ### Runs -/

/-- Whatever is done to a root, by its owner and by other processes, with one failing call in each
publication: whole files can do the same, the answers agree, and in the end the root has the files
and markers that they have and accepts the keys that they open. -/
theorem root_runs_refine {r r' : Root} {steps : List (RootCall × Outcome PyError Answer)}
    (hrun : RootRun store r steps r') {s : RankState} (h : r.Shows store s) :
    ∃ answers s', RankRun store.config s answers s' ∧ r'.Shows store s' ∧
      List.Forall₂ (fun x y ↦ x.1 = y.1 ∧ x.1.Answers y.2 x.2) steps answers ∧
      ∀ key, r'.disk.Accepts store key ↔
        ∃ desc, openChunk store.config s' key false = .ok desc := by
  induction hrun generalizing s with
  | done r => exact ⟨[], s, .done s, h, .nil, h.accepts_iff⟩
  | call call hadmissible hends hrest ih =>
    obtain ⟨oracle, hshows, hanswers⟩ := call_agrees h hadmissible hends
    obtain ⟨answers, s', hmodel, hlast, hall, haccepts⟩ := ih hshows
    exact ⟨_, s', .call call oracle hmodel, hlast, .cons ⟨rfl, hanswers⟩ hall, haccepts⟩

/-- A call whose outcome is known begins a run. -/
theorem RootRun.step {call : RootCall} {o : Outcome PyError Answer} {r₁ r' : Root}
    {steps : List (RootCall × Outcome PyError Answer)} (hcall : call.run store r = (o, r₁))
    (hadmissible : call.Admissible) (hends : o ≠ .crashed) (hrest : RootRun store r₁ steps r') :
    RootRun store r ((call, o) :: steps) r' := by
  have ho : (call.run store r).1 = o := congrArg Prod.fst hcall
  have hr : (call.run store r).2 = r₁ := congrArg Prod.snd hcall
  rw [← ho] at hends ⊢
  exact .call call hadmissible hends (hr ▸ hrest)

private theorem run_commit_raised {hooked : Bool} {faults : List Fault} {env : PublishEnv}
    {key : Digest} {header : TokenHeader} {input : CommitInput} {e : PyError} {m : Machine Disk}
    (h : commit store env key header input ⟨faults, r.disk⟩ = (.raised e, m)) :
    RootCall.run store ⟨hooked, faults, .commit env key header input⟩ r =
      (.raised e, ⟨m.state, r.pins⟩) := by
  unfold RootCall.run Root.after
  dsimp only
  rw [h]

private theorem evict_of_free {hooked : Bool} {key : Digest} (h : busy s key = false) :
    (evict hooked s key).2 = (s.files.get? key).isSome ∧
      (evict hooked s key).1.files.get? key = none := by
  unfold evict
  rw [h, if_neg Bool.false_ne_true]
  split
  · next hnot =>
    have hnone : s.files.get? key = none := (OrderedDict.get?_eq_none_iff _ _).mpr hnot
    rw [hnone]
    exact ⟨rfl, rfl⟩
  · next hmem =>
    obtain ⟨f, hf⟩ := (OrderedDict.mem_keys_iff _ _).mp (not_not.mp hmem)
    rw [hf]
    refine ⟨rfl, ?_⟩
    rw [OrderedDict.get?_eq_none_iff, OrderedDict.mem_keys_erase]
    exact fun h ↦ h.1 rfl

/-- Evicting a key that is not pinned removes its file, if there is one. -/
theorem run_evict (hooked : Bool) (key : Digest) (h : r.Shows store s) (hpins : r.pins = []) :
    ∃ r₁ s₁, RootCall.run store ⟨hooked, [], .evict key⟩ r =
        (.returned (.evicted (r.disk.files.get? key).isSome), r₁) ∧
      r₁.Shows store s₁ ∧ r₁.pins = [] ∧ r₁.disk.files.get? key = none := by
  have hbusy : busy s key = false := by
    unfold busy
    rw [h.pins, hpins]
    rfl
  have hsame : (r.disk.files.get? key).isSome = (s.files.get? key).isSome := by
    have hrel := h.files key
    generalize r.disk.files.get? key = x at hrel
    generalize s.files.get? key = y at hrel
    cases hrel <;> rfl
  obtain ⟨removed, d', hrun, hremoved, hd⟩ :=
    @returns_evictPath store r.pins s hooked key r.disk h
  obtain ⟨hanswer, hgone⟩ := @evict_of_free s hooked key hbusy
  refine ⟨⟨d', r.pins⟩, _, ?_, hd, hpins, ?_⟩
  · unfold RootCall.run Root.after
    dsimp only
    rw [hrun, hremoved, hanswer, hsame]
  · have hrel := hd.files key
    rw [hgone] at hrel
    change d'.files.get? key = none
    generalize d'.files.get? key = x at hrel
    cases hrel
    rfl

/-- The commit of the owner whose `fsync` fails. -/
def failingCommit : RootCall :=
  ⟨true, failingSync, .commit sampleEnv (.ofNat 9) ⟨.data, none, 256⟩ (.chunk sampleBlock)⟩

/-- A commit that fails, an eviction by the owner, and one by another process. -/
theorem root_runs_refine_emptyRoot :
    ∃ r' answer s', RootRun boundedSample ⟨emptyRoot, []⟩
        [(failingCommit, .raised (.osError "fsync")),
          (⟨true, [], .evict (.ofNat 9)⟩, .returned (.evicted true)),
          (⟨false, [], .evict (.ofNat 9)⟩, .returned (.evicted false))] r' ∧
      RankRun boundedSample.config ⟨.empty, .empty, [], .create Quorum.sampleReporterConfig⟩
        [(failingCommit, answer), (⟨true, [], .evict (.ofNat 9)⟩, .ok (.evicted true)),
          (⟨false, [], .evict (.ofNat 9)⟩, .ok (.evicted false))] s' ∧
      r'.Shows boundedSample s' ∧ ¬ ∃ desc, openChunk boundedSample.config s' (.ofNat 9) false =
        .ok desc := by
  obtain ⟨d, -, hcommit, hfile, -⟩ := commit_failingSync
  have hshows : Root.Shows boundedSample ⟨emptyRoot, []⟩
      ⟨.empty, .empty, [], .create Quorum.sampleReporterConfig⟩ :=
    ⟨fun _ ↦ .none, fun _ ↦ rfl, rfl⟩
  have hfailing : failingCommit.run boundedSample ⟨emptyRoot, []⟩ =
      (.raised (.osError "fsync"), ⟨d, []⟩) :=
    @run_commit_raised boundedSample ⟨emptyRoot, []⟩ _ _ _ _ _ _ _ _ hcommit
  have hadmissible : failingCommit.Admissible := ⟨by decide, fun h ↦ (by cases h)⟩
  have hraised : ∀ {e : PyError}, (.raised e : Outcome PyError Answer) ≠ .crashed :=
    fun h ↦ (by cases h)
  have hreturned : ∀ {a : Answer}, (.returned a : Outcome PyError Answer) ≠ .crashed :=
    fun h ↦ (by cases h)
  obtain ⟨oracle, hfirst, -⟩ := call_agrees hshows hadmissible (by rw [hfailing]; exact hraised)
  rw [hfailing] at hfirst
  obtain ⟨r₁, s₁, hrun₁, hshows₁, hpins₁, hgone₁⟩ := run_evict true (.ofNat 9) hfirst rfl
  obtain ⟨r₂, s₂, hrun₂, -, -, hgone₂⟩ := run_evict false (.ofNat 9) hshows₁ hpins₁
  have hthere : ((⟨d, []⟩ : Root).disk.files.get? (.ofNat 9)).isSome = true := hfile
  rw [hthere] at hrun₁
  rw [hgone₁] at hrun₂
  have hrun := RootRun.step hfailing hadmissible hraised
    (RootRun.step hrun₁ ⟨Nat.zero_le _, fun _ ↦ rfl⟩ hreturned
      (RootRun.step hrun₂ ⟨Nat.zero_le _, fun _ ↦ rfl⟩ hreturned (.done r₂)))
  obtain ⟨answers, s', hmodel, hlast, hall, haccepts⟩ := root_runs_refine hrun hshows
  obtain ⟨⟨c₀, a₀⟩, _, ⟨h₀, -⟩, hall₁, rfl⟩ := List.forall₂_cons_left_iff.mp hall
  obtain ⟨⟨c₁, a₁⟩, _, ⟨h₁, ha₁⟩, hall₂, rfl⟩ := List.forall₂_cons_left_iff.mp hall₁
  obtain ⟨⟨c₂, a₂⟩, _, ⟨h₂, ha₂⟩, hall₃, rfl⟩ := List.forall₂_cons_left_iff.mp hall₂
  obtain rfl := List.forall₂_nil_left_iff.mp hall₃
  obtain rfl : failingCommit = c₀ := h₀
  obtain rfl : ⟨true, [], .evict (.ofNat 9)⟩ = c₁ := h₁
  obtain rfl : ⟨false, [], .evict (.ofNat 9)⟩ = c₂ := h₂
  obtain rfl : a₁ = .ok (.evicted true) := ha₁
  obtain rfl : a₂ = .ok (.evicted false) := ha₂
  refine ⟨r₂, a₀, s', hrun, hmodel, hlast, fun hopen ↦ ?_⟩
  obtain ⟨-, f, -, hf, -⟩ := (haccepts _).mpr hopen
  rw [hgone₂] at hf
  cases hf

end

end SpoolCache.Connector
