import SpoolCache.Store.Chains

/-!
# The chain walk ends and is exact

`_chain` and `lookup`, `token_files.py:454–527`. The parents of the files are data from the disk,
and the loop remembers no key. It ends because the span it expects shrinks by a chunk in each
round, and only a file of one chunk has no parent. A walk that returns has opened the files of one
chain, and these cover every layer.
-/

namespace SpoolCache.Store

open SpoolCache.Base SpoolCache.Layout SpoolCache.Prefix

section

variable (config : StoreConfig)

/-! ### The loop -/

/-- `_open_chunk` when the system may fail at a key. -/
def openFile (fault : Digest → Option String) (s : RankState) (key : Digest) :
    Except PyError TokenFileDescriptor :=
  match fault key with
  | some message => .error (.osError message)
  | none => openChunk config s key false

/-- The loop of `_chain`, `token_files.py:457–476`, for some rounds, with the number of files it
has tried to open; `none` when the rounds do not suffice. A round puts its file in front, so the
list is in the order after `objects.reverse()`. -/
def walkLoop (hooked : Bool) (fault : Digest → Option String) (s : RankState) :
    Nat → Option Digest → Option Nat → List TokenFileDescriptor →
    Option (RankState × Nat × Except PyError (List TokenFileDescriptor))
  | _, none, _, objects => some (s, 0, .ok objects)
  | 0, some _, _, _ => none
  | rounds + 1, some key, expectedSpan, objects =>
    match openFile config fault s key with
    | .error .fileNotFound => some (s, 1, .error .fileNotFound)
    | .error e => some (quarantineBad hooked s key, 1, .error e)
    | .ok desc =>
      if desc.kind ≠ .data then
        some (s, 1, .error (.manifestError "state file is not a token-chain node"))
      else if expectedSpan.any fun span ↦ decide (desc.spanTokens ≠ span) then
        some (quarantineBad hooked s key, 1,
          .error (.manifestError "token chain is not consecutive"))
      else
        (walkLoop hooked fault s rounds desc.parent
          (some (desc.spanTokens - config.layout.chunkTokens)) (desc :: objects)).map
          fun r ↦ (r.1, r.2.1 + 1, r.2.2)

/-- The state file of an entry, `token_files.py:481–496`. -/
def openState (hooked : Bool) (fault : Digest → Option String) (s : RankState)
    (entryId : Digest) (span : Nat) : RankState × Except PyError TokenFileDescriptor :=
  let key := boundaryStateKey entryId
  match openFile config fault s key with
  | .error .fileNotFound => (s, .error .fileNotFound)
  | .error e => (quarantineBad hooked s key, .error e)
  | .ok state =>
    if (state.kind, state.parent, state.spanTokens) ≠ (.state, some entryId, span) then
      (quarantineBad hooked s key,
        .error (.manifestError "boundary state differs from token chain"))
    else (s, .ok state)

/-- `_chain` after its loop, `token_files.py:477–505`. -/
def finishWalk (hooked : Bool) (fault : Digest → Option String) (s : RankState)
    (entryId : Digest) (opened : Nat) (objects : List TokenFileDescriptor) :
    RankState × Nat × Except PyError TokenSnapshot :=
  match objects.head?, objects.getLast? with
  | some first, some last =>
    if first.spanTokens ≠ config.layout.chunkTokens then
      (s, opened, .error (.manifestError "token chain has no beginning"))
    else if config.layout.hasBoundaryState then
      match openState config hooked fault s entryId last.spanTokens with
      | (s, .error e) => (s, opened + 1, .error e)
      | (s, .ok state) =>
        (s, opened + 1, coveredSnapshot config entryId last.spanTokens (objects ++ [state]))
    else (s, opened, coveredSnapshot config entryId last.spanTokens objects)
  | _, _ => (s, opened, .error (.manifestError "token chain has no beginning"))

/-- `_chain`, `token_files.py:454–505`. -/
def walkChain (hooked : Bool) (fault : Digest → Option String) (rounds : Nat) (s : RankState)
    (entryId : Digest) : Option (RankState × Nat × Except PyError TokenSnapshot) :=
  match walkLoop config hooked fault s rounds (some entryId) none [] with
  | none => none
  | some (s, opened, .error e) => some (s, opened, .error e)
  | some (s, opened, .ok objects) => some (finishWalk config hooked fault s entryId opened objects)

/-- `valid_chunk` of every file of a snapshot, `token_files.py:514–521`. -/
def verifyPayloads (hooked : Bool) : RankState → List TokenFileDescriptor → RankState × Bool
  | s, [] => (s, true)
  | s, desc :: rest =>
    match validChunk config hooked s desc.key ⟨desc.kind, desc.parent, desc.spanTokens⟩ with
    | (s, none) => (s, false)
    | (s, some _) => verifyPayloads hooked s rest

/-- `lookup`, `token_files.py:507–527`. -/
def walkLookup (hooked verify : Bool) (fault : Digest → Option String) (rounds : Nat)
    (s : RankState) (entryId : Digest) :
    Option (RankState × Except PyError (Option TokenSnapshot)) :=
  match walkChain config hooked fault rounds s entryId with
  | none => none
  | some (s, _, .ok snapshot) =>
    if verify then
      match verifyPayloads config hooked s snapshot.objects with
      | (s, true) => some (s, .ok (some snapshot))
      | (s, false) => some (s, .ok none)
    else some (s, .ok (some snapshot))
  | some (s, _, .error .fileNotFound) => some (s, .ok none)
  | some (s, _, .error (.osError _)) => some (s, .ok none)
  | some (s, _, .error (.manifestError _)) => some (s, .ok none)
  | some (s, _, .error e) => some (s, .error e)

end

/-! ### Files that open -/

/-- `OSError`, `FileNotFoundError` or `ManifestError`. -/
inductive WalkError : PyError → Prop where
  | notFound : WalkError .fileNotFound
  | os (message : String) : WalkError (.osError message)
  | manifest (message : String) : WalkError (.manifestError message)

section

variable {config : StoreConfig} {hooked : Bool} {fault : Digest → Option String} {s : RankState}

private theorem openFile_raises (key : Digest) : OnlyRaises WalkError
    (openFile config fault s key) := by
  unfold openFile
  split
  · exact onlyRaises_error (.os _)
  · unfold openChunk
    split
    · exact onlyRaises_error (.manifest _)
    split
    · exact onlyRaises_error .notFound
    split
    · exact onlyRaises_error (.manifest _)
    split
    · exact onlyRaises_error (.manifest _)
    · exact onlyRaises_ok _

private theorem openChunk_of_openFile {key : Digest} {desc : TokenFileDescriptor}
    (h : openFile config fault s key = .ok desc) : openChunk config s key false = .ok desc := by
  unfold openFile at h
  split at h
  · cases h
  · exact h

/-- A data file has whole chunks, and no parent exactly when it has one. -/
theorem chunks_of_openFile {key : Digest} {desc : TokenFileDescriptor}
    (h : openFile config fault s key = .ok desc) :
    desc.key = key ∧ ∃ n, 0 < n ∧ desc.spanTokens = n * config.layout.chunkTokens ∧
      (desc.kind = .data → (desc.parent = none ↔ n = 1)) := by
  have hopen := openChunk_of_openFile h
  obtain ⟨hkey, hparent, hmod⟩ := parent_of_openChunk hopen
  have hpos := (headerSpan_of_openChunk hopen).2.2.1
  obtain ⟨n, hn⟩ := Nat.dvd_of_mod_eq_zero hmod
  rw [Nat.mul_comm] at hn
  refine ⟨hkey, n, Nat.pos_of_ne_zero ?_, hn, fun hkind ↦ ?_⟩
  · rintro rfl
    rw [hn, Nat.zero_mul] at hpos
    exact lt_irrefl _ hpos
  · rw [hparent hkind, hn]
    refine ⟨fun heq ↦ ?_, fun hone ↦ by rw [hone, Nat.one_mul]⟩
    have hone : n * config.layout.chunkTokens = 1 * config.layout.chunkTokens := by
      rw [heq, Nat.one_mul]
    exact Nat.eq_of_mul_eq_mul_right config.layout.chunkTokens_pos hone

/-- Data files of the spans of one to `n` chunks that open, each the parent of the next, and the
last one of this key. -/
inductive Ascends (opens : Digest → Except PyError TokenFileDescriptor) (chunk : Nat) :
    Nat → Digest → List TokenFileDescriptor → Prop where
  | first {key : Digest} {desc : TokenFileDescriptor} (hopen : opens key = .ok desc)
      (hkind : desc.kind = .data) (hparent : desc.parent = none)
      (hspan : desc.spanTokens = 1 * chunk) : Ascends opens chunk 1 key [desc]
  | next {n : Nat} {key parent : Digest} {desc : TokenFileDescriptor}
      {files : List TokenFileDescriptor} (hfiles : Ascends opens chunk n parent files)
      (hopen : opens key = .ok desc) (hkind : desc.kind = .data)
      (hparent : desc.parent = some parent) (hspan : desc.spanTokens = (n + 1) * chunk) :
      Ascends opens chunk (n + 1) key (files ++ [desc])

/-! ### The loop ends -/

/-- The last file of a chain, as it opens. -/
theorem Ascends.last {opens : Digest → Except PyError TokenFileDescriptor} {chunk n : Nat}
    {key : Digest} {files : List TokenFileDescriptor} (h : Ascends opens chunk n key files) :
    ∃ desc, opens key = .ok desc ∧ desc.kind = .data ∧ desc.spanTokens = n * chunk ∧
      files.getLast? = some desc := by
  cases h with
  | first hopen hkind _ hspan => exact ⟨_, hopen, hkind, hspan, rfl⟩
  | next _ hopen hkind _ hspan => exact ⟨_, hopen, hkind, hspan, List.getLast?_concat⟩

private theorem walkLoop_error {key : Digest} {e : PyError}
    (h : openFile config fault s key = .error e)
    (rounds : Nat) (expectedSpan : Option Nat) (objects : List TokenFileDescriptor) :
    walkLoop config hooked fault s (rounds + 1) (some key) expectedSpan objects =
      some (if e = .fileNotFound then s else quarantineBad hooked s key, 1, .error e) := by
  rw [walkLoop, h]
  split
  · next heq =>
    cases heq
    rfl
  · next hne heq =>
    cases heq
    rw [if_neg fun he ↦ hne (by rw [he])]
  · next heq => cases heq

private theorem walkLoop_ok {key : Digest} {desc : TokenFileDescriptor}
    (h : openFile config fault s key = .ok desc) (rounds : Nat) (expectedSpan : Option Nat)
    (objects : List TokenFileDescriptor) :
    walkLoop config hooked fault s (rounds + 1) (some key) expectedSpan objects =
      if desc.kind ≠ .data then
        some (s, 1, .error (.manifestError "state file is not a token-chain node"))
      else if expectedSpan.any fun span ↦ decide (desc.spanTokens ≠ span) then
        some (quarantineBad hooked s key, 1,
          .error (.manifestError "token chain is not consecutive"))
      else
        (walkLoop config hooked fault s rounds desc.parent
          (some (desc.spanTokens - config.layout.chunkTokens)) (desc :: objects)).map
          fun r ↦ (r.1, r.2.1 + 1, r.2.2) := by
  rw [walkLoop, h]

/-- How the loop ends when it expects a span of `n` chunks: after at most `n` files, with the chain
that is there, or with an error and no chain. -/
def LoopEnds (config : StoreConfig) (hooked : Bool) (fault : Digest → Option String)
    (s : RankState) (n : Nat) (key : Digest) (expectedSpan : Option Nat)
    (objects : List TokenFileDescriptor) : Prop :=
  ∃ s' opened r, 0 < opened ∧ opened ≤ n ∧
    (∀ rounds, n ≤ rounds → walkLoop config hooked fault s rounds (some key) expectedSpan objects =
      some (s', opened, r)) ∧
    ((∃ files, Ascends (openFile config fault s) config.layout.chunkTokens n key files ∧ s' = s ∧
        r = .ok (files ++ objects)) ∨
      ∃ e, WalkError e ∧ r = .error e ∧
        ∀ files, ¬ Ascends (openFile config fault s) config.layout.chunkTokens n key files)

/-- An error in the first round ends the loop there. -/
theorem loopEnds_of_error {m : Nat} {key : Digest} {expectedSpan : Option Nat}
    {objects : List TokenFileDescriptor} (s' : RankState) {e : PyError} (he : WalkError e)
    (hround : ∀ rounds, walkLoop config hooked fault s (rounds + 1) (some key) expectedSpan objects =
      some (s', 1, .error e))
    (hnone : ∀ files, ¬ Ascends (openFile config fault s) config.layout.chunkTokens (m + 1) key files) :
    LoopEnds config hooked fault s (m + 1) key expectedSpan objects := by
  refine ⟨s', 1, .error e, Nat.one_pos, Nat.succ_pos m, fun rounds hle ↦ ?_, .inr ⟨e, he, rfl, hnone⟩⟩
  obtain ⟨k, rfl⟩ := Nat.exists_eq_add_of_lt (Nat.lt_of_lt_of_le (Nat.succ_pos m) hle)
  rw [Nat.zero_add]
  exact hround k

private theorem loopEnds {n : Nat} (hn : 0 < n) (key : Digest) (expectedSpan : Option Nat)
    (objects : List TokenFileDescriptor)
    (hexpected : ∀ desc, openFile config fault s key = .ok desc →
      ((expectedSpan.any fun span ↦ decide (desc.spanTokens ≠ span)) = true ↔
        desc.spanTokens ≠ n * config.layout.chunkTokens)) :
    LoopEnds config hooked fault s n key expectedSpan objects := by
  induction n generalizing key expectedSpan objects with
  | zero => exact absurd hn (lt_irrefl 0)
  | succ m ih =>
    cases hopen : openFile config fault s key with
    | error e =>
      refine loopEnds_of_error _ (openFile_raises key e hopen)
        (fun rounds ↦ walkLoop_error hopen rounds expectedSpan objects) fun files hfiles ↦ ?_
      obtain ⟨desc, hdesc, -⟩ := hfiles.last
      rw [hopen] at hdesc
      cases hdesc
    | ok desc =>
      have hround := fun rounds ↦ @walkLoop_ok config hooked fault s key desc hopen rounds
        expectedSpan objects
      by_cases hkind : desc.kind ≠ .data
      · refine loopEnds_of_error s (.manifest "state file is not a token-chain node")
          (fun rounds ↦ ?_) fun files hfiles ↦ ?_
        · rw [hround rounds, if_pos hkind]
        · obtain ⟨desc', hdesc, hdata, -⟩ := hfiles.last
          rw [hopen] at hdesc
          cases hdesc
          exact hkind hdata
      have hdata := not_not.mp hkind
      by_cases hspan : desc.spanTokens ≠ (m + 1) * config.layout.chunkTokens
      · refine loopEnds_of_error (quarantineBad hooked s key) (.manifest "token chain is not consecutive")
          (fun rounds ↦ ?_) fun files hfiles ↦ ?_
        · rw [hround rounds, if_neg hkind, if_pos ((hexpected desc hopen).mpr hspan)]
        · obtain ⟨desc', hdesc, -, hlast, -⟩ := hfiles.last
          rw [hopen] at hdesc
          cases hdesc
          exact hspan hlast
      have hnext := fun h ↦ hspan ((hexpected desc hopen).mp h)
      have hspan := not_not.mp hspan
      obtain ⟨-, n, -, hchunks, hparent⟩ := chunks_of_openFile hopen
      have hsame : n = m + 1 := Nat.eq_of_mul_eq_mul_right config.layout.chunkTokens_pos
        (hchunks.symm.trans hspan)
      subst hsame
      cases hp : desc.parent with
      | none =>
        have hm : m = 0 := by
          have := (hparent hdata).mp hp
          omega
        subst hm
        refine ⟨s, 1, .ok ([desc] ++ objects), Nat.one_pos, le_refl _, fun rounds hle ↦ ?_,
          .inl ⟨[desc], .first hopen hdata hp hspan, rfl, rfl⟩⟩
        obtain ⟨k, rfl⟩ := Nat.exists_eq_add_of_le hle
        rw [Nat.add_comm, hround k, if_neg hkind, if_neg hnext, hp, walkLoop]
        rfl
      | some parent =>
        have hm : 0 < m := by
          by_contra hzero
          have hone := (hparent hdata).mpr (by omega)
          rw [hp] at hone
          cases hone
        have hrest : desc.spanTokens - config.layout.chunkTokens =
            m * config.layout.chunkTokens := by
          rw [hspan, Nat.succ_mul, Nat.add_sub_cancel]
        obtain ⟨s', opened, r, hpos, hle, hrun, hend⟩ := ih hm parent
          (some (m * config.layout.chunkTokens)) (desc :: objects) (fun d _ ↦ by simp)
        have hloop : ∀ rounds, m + 1 ≤ rounds → walkLoop config hooked fault s rounds (some key)
            expectedSpan objects = some (s', opened + 1, r) := by
          intro rounds hrounds
          obtain ⟨k, rfl⟩ := Nat.exists_eq_add_of_le hrounds
          have hk : m + 1 + k = (m + k) + 1 := by omega
          rw [hk, hround (m + k), if_neg hkind, if_neg hnext, hp, hrest,
            hrun (m + k) (by omega)]
          rfl
        refine ⟨s', opened + 1, r, Nat.succ_pos _, by omega, hloop, ?_⟩
        rcases hend with ⟨files, hfiles, hs', hr⟩ | ⟨e, he, hr, hnone⟩
        · refine .inl ⟨files ++ [desc], .next hfiles hopen hdata hp hspan, hs', ?_⟩
          rw [hr, List.append_assoc]
          rfl
        · refine .inr ⟨e, he, hr, fun files hfiles ↦ ?_⟩
          cases hfiles with
          | first hopen' _ hparent' _ =>
            rw [hopen] at hopen'
            cases hopen'
            rw [hp] at hparent'
            cases hparent'
          | next hfiles hopen' _ hparent' _ =>
            rw [hopen] at hopen'
            cases hopen'
            rw [hp] at hparent'
            cases hparent'
            exact hnone _ hfiles

/-! ### What the walk returns -/

/-- The files of an entry of `n` chunks: its data files, and the state file of its boundary where
the layout has one. -/
inductive Chained (config : StoreConfig) (fault : Digest → Option String) (s : RankState)
    (entryId : Digest) : Nat → List TokenFileDescriptor → Prop where
  | data {n : Nat} {files : List TokenFileDescriptor}
      (hfiles : Ascends (openFile config fault s) config.layout.chunkTokens n entryId files)
      (hb : config.layout.hasBoundaryState = false) : Chained config fault s entryId n files
  | state {n : Nat} {files : List TokenFileDescriptor} {state : TokenFileDescriptor}
      (hfiles : Ascends (openFile config fault s) config.layout.chunkTokens n entryId files)
      (hb : config.layout.hasBoundaryState = true)
      (hopen : openFile config fault s (boundaryStateKey entryId) = .ok state)
      (hkind : state.kind = .state) (hparent : state.parent = some entryId)
      (hspan : state.spanTokens = n * config.layout.chunkTokens) :
      Chained config fault s entryId n (files ++ [state])

/-- The slices of an open file are those of its span and kind. -/
theorem segments_of_openFile {key : Digest} {desc : TokenFileDescriptor}
    (h : openFile config fault s key = .ok desc) :
    config.layout.segments desc.spanTokens desc.kind = .ok desc.segments := by
  obtain ⟨-, file, header, segments, -, -, hp, rfl⟩ := openChunk_ok (openChunk_of_openFile h)
  exact segments_of_headerPayload hp

private theorem Ascends.slices {n : Nat} {key : Digest} {files : List TokenFileDescriptor}
    (h : Ascends (openFile config fault s) config.layout.chunkTokens n key files) :
    0 < n ∧ files.flatMap TokenFileDescriptor.segments = (List.range n).flatMap fun i ↦
      config.layout.groups.flatMap fun g ↦
        g.slices config.layout.chunkTokens ((i + 1) * config.layout.chunkTokens) .data := by
  have hone : ∀ {key desc m}, openFile config fault s key = .ok desc → desc.kind = .data →
      desc.spanTokens = (m + 1) * config.layout.chunkTokens →
      desc.segments = config.layout.groups.flatMap fun g ↦
        g.slices config.layout.chunkTokens ((m + 1) * config.layout.chunkTokens) .data := by
    intro key desc m hopen hkind hspan
    have hsegments := segments_of_openFile hopen
    rw [hkind, hspan] at hsegments
    exact HMALayout.segments_eq hsegments
  induction h with
  | first hopen hkind _ hspan =>
    refine ⟨Nat.one_pos, ?_⟩
    rw [List.flatMap_singleton, hone (m := 0) hopen hkind hspan, List.range_one,
      List.flatMap_singleton]
  | next _ hopen hkind _ hspan ih =>
    refine ⟨Nat.succ_pos _, ?_⟩
    rw [List.flatMap_append, List.flatMap_singleton, ih.2, hone hopen hkind hspan,
      List.range_succ, List.flatMap_append, List.flatMap_singleton]

private theorem Ascends.head {n : Nat} {key : Digest} {files : List TokenFileDescriptor}
    (h : Ascends (openFile config fault s) config.layout.chunkTokens n key files) :
    ∃ desc, files.head? = some desc ∧ desc.spanTokens = config.layout.chunkTokens := by
  induction h with
  | first _ _ _ hspan => exact ⟨_, rfl, hspan.trans (Nat.one_mul _)⟩
  | next _ _ _ _ _ ih =>
    obtain ⟨desc, hhead, hspan⟩ := ih
    refine ⟨desc, ?_, hspan⟩
    rw [List.head?_append, hhead]
    rfl

/-- The files of an entry pass the coverage check. -/
theorem Chained.covered {entryId : Digest} {n : Nat} {objects : List TokenFileDescriptor}
    (h : Chained config fault s entryId n objects) :
    config.layout.validateManifestCoverage (n * config.layout.chunkTokens)
      (objects.flatMap TokenFileDescriptor.segments) = .ok () := by
  cases h with
  | data hfiles hb =>
    obtain ⟨hn, hslices⟩ := hfiles.slices
    obtain ⟨counts, hcounts⟩ := HMALayout.selectedPageCounts_ok hn fun htrue ↦ by
      rw [hb] at htrue
      cases htrue
    have hchain : objects.flatMap TokenFileDescriptor.segments = config.layout.chainSlices n := by
      unfold HMALayout.chainSlices
      rw [hslices, hb, if_neg Bool.false_ne_true, List.append_nil]
    rw [hchain]
    exact HMALayout.validateManifestCoverage_chain hn hcounts
  | @state files state hfiles hb hopen hkind hparent hspan =>
    obtain ⟨hn, hslices⟩ := hfiles.slices
    have hsegments := segments_of_openFile hopen
    rw [hkind, hspan] at hsegments
    obtain ⟨counts, hcounts⟩ := HMALayout.selectedPageCounts_ok hn fun _ ↦ ⟨_, hsegments⟩
    have hchain : (files ++ [state]).flatMap TokenFileDescriptor.segments =
        config.layout.chainSlices n := by
      unfold HMALayout.chainSlices
      rw [List.flatMap_append, List.flatMap_singleton, hslices, if_pos hb,
        HMALayout.segments_eq hsegments]
    rw [hchain]
    exact HMALayout.validateManifestCoverage_chain hn hcounts

private theorem coveredSnapshot_of_chained {entryId : Digest} {n : Nat}
    {objects : List TokenFileDescriptor} (h : Chained config fault s entryId n objects) :
    coveredSnapshot config entryId (n * config.layout.chunkTokens) objects =
      .ok ⟨entryId, n * config.layout.chunkTokens, objects⟩ := by
  unfold coveredSnapshot
  rw [h.covered]
  rfl

/-- The state file is there, or no files of the entry are. -/
theorem openState_cases (entryId : Digest) (span : Nat) :
    (∃ state, openState config hooked fault s entryId span = (s, .ok state) ∧
      openFile config fault s (boundaryStateKey entryId) = .ok state ∧ state.kind = .state ∧
      state.parent = some entryId ∧ state.spanTokens = span) ∨
    ∃ s' e, openState config hooked fault s entryId span = (s', .error e) ∧ WalkError e ∧
      ∀ state, openFile config fault s (boundaryStateKey entryId) = .ok state →
        ¬ (state.kind = .state ∧ state.parent = some entryId ∧ state.spanTokens = span) := by
  unfold openState
  dsimp only
  cases hopen : openFile config fault s (boundaryStateKey entryId) with
  | error e =>
    refine .inr ?_
    have he := openFile_raises _ _ hopen
    cases he with
    | notFound => exact ⟨_, _, rfl, .notFound, fun _ h ↦ (by cases h)⟩
    | os message => exact ⟨_, _, rfl, .os message, fun _ h ↦ (by cases h)⟩
    | manifest message => exact ⟨_, _, rfl, .manifest message, fun _ h ↦ (by cases h)⟩
  | ok state =>
    dsimp only
    split
    · next hne =>
      refine .inr ⟨_, _, rfl, .manifest _, fun state' hsame hall ↦ hne ?_⟩
      cases hsame
      rw [hall.1, hall.2.1, hall.2.2]
    · next heq =>
      have heq := not_not.mp heq
      rw [Prod.mk.injEq, Prod.mk.injEq] at heq
      exact .inl ⟨state, rfl, rfl, heq⟩

/-- After the loop has returned the data files, the snapshot of the entry or an error is
returned. -/
theorem finishWalk_cases {entryId : Digest} {n : Nat} {files : List TokenFileDescriptor}
    (hfiles : Ascends (openFile config fault s) config.layout.chunkTokens n entryId files)
    (opened : Nat) :
    (∃ opened' objects, opened' ≤ opened + 1 ∧ Chained config fault s entryId n objects ∧
      finishWalk config hooked fault s entryId opened files =
        (s, opened', .ok ⟨entryId, n * config.layout.chunkTokens, objects⟩)) ∨
    ∃ s' opened' e, opened' ≤ opened + 1 ∧ WalkError e ∧
      (∀ m objects, ¬ Chained config fault s entryId m objects) ∧
      finishWalk config hooked fault s entryId opened files = (s', opened', .error e) := by
  obtain ⟨first, hhead, hfirst⟩ := hfiles.head
  obtain ⟨last, hopen, -, hspan, hlast⟩ := hfiles.last
  unfold finishWalk
  rw [hhead, hlast]
  dsimp only
  rw [if_neg (not_not.mpr hfirst), hspan]
  cases hb : config.layout.hasBoundaryState with
  | false =>
    have hchained : Chained config fault s entryId n files := .data hfiles hb
    rw [if_neg Bool.false_ne_true, coveredSnapshot_of_chained hchained]
    exact .inl ⟨opened, files, Nat.le_succ _, hchained, rfl⟩
  | true =>
    rw [if_pos rfl]
    rcases @openState_cases config hooked fault s entryId (n * config.layout.chunkTokens) with
      ⟨state, hstate, hopened, hkind, hparent, hsame⟩ | ⟨s', e, hstate, he, hnone⟩
    · have hchained : Chained config fault s entryId n (files ++ [state]) :=
        .state hfiles hb hopened hkind hparent hsame
      rw [hstate]
      dsimp only
      rw [coveredSnapshot_of_chained hchained]
      exact .inl ⟨opened + 1, files ++ [state], le_refl _, hchained, rfl⟩
    · rw [hstate]
      refine .inr ⟨s', opened + 1, e, le_refl _, he, fun m objects hchained ↦ ?_, rfl⟩
      cases hchained with
      | data hfiles' hb' =>
        rw [hb] at hb'
        cases hb'
      | state hfiles' _ hopened hkind hparent hsame =>
        -- the span of the last file fixes the number of chunks
        obtain ⟨last', hopen', -, hspan', -⟩ := hfiles'.last
        rw [hopen] at hopen'
        cases hopen'
        exact hnone _ hopened ⟨hkind, hparent, hsame.trans (hspan'.symm.trans hspan)⟩

private theorem walkChain_of_loop_error {rounds : Nat} {entryId : Digest} {s' : RankState}
    {opened : Nat} {e : PyError} (h : walkLoop config hooked fault s rounds (some entryId) none [] =
      some (s', opened, .error e)) :
    walkChain config hooked fault rounds s entryId = some (s', opened, .error e) := by
  unfold walkChain
  rw [h]

/-- How the walk ends: with the snapshot of the files of the entry, or with an error when they are
not all there. -/
theorem walkChain_cases (entryId : Digest) :
    ∃ s' opened r, (∀ rounds, 0 < rounds →
        (∀ desc, openFile config fault s entryId = .ok desc →
          desc.spanTokens / config.layout.chunkTokens ≤ rounds) →
        walkChain config hooked fault rounds s entryId = some (s', opened, r)) ∧
      (∀ desc, openFile config fault s entryId = .ok desc →
        opened ≤ desc.spanTokens / config.layout.chunkTokens + 1) ∧
      (∀ e, openFile config fault s entryId = .error e → opened = 1) ∧
      ((∃ n objects, Chained config fault s entryId n objects ∧ s' = s ∧
          r = .ok ⟨entryId, n * config.layout.chunkTokens, objects⟩) ∨
        ∃ e, WalkError e ∧ r = .error e ∧
          ∀ n objects, ¬ Chained config fault s entryId n objects) := by
  have hfirst : ∀ {n objects}, Chained config fault s entryId n objects →
      ∃ files, Ascends (openFile config fault s) config.layout.chunkTokens n entryId files := by
    intro n objects h
    cases h with
    | data hfiles _ => exact ⟨_, hfiles⟩
    | state hfiles _ _ _ _ _ => exact ⟨_, hfiles⟩
  cases hopen : openFile config fault s entryId with
  | error e =>
    refine ⟨if e = .fileNotFound then s else quarantineBad hooked s entryId, 1, .error e,
      fun rounds hpos _ ↦ ?_, fun desc hdesc ↦ (by cases hdesc), fun _ _ ↦ rfl,
      .inr ⟨e, openFile_raises _ _ hopen, rfl, fun n objects h ↦ ?_⟩⟩
    · obtain ⟨k, rfl⟩ := Nat.exists_eq_succ_of_ne_zero hpos.ne'
      exact walkChain_of_loop_error (walkLoop_error hopen k none [])
    · obtain ⟨files, hfiles⟩ := hfirst h
      obtain ⟨desc, hdesc, -⟩ := hfiles.last
      rw [hopen] at hdesc
      cases hdesc
  | ok desc =>
    obtain ⟨-, n, hn, hspan, -⟩ := chunks_of_openFile hopen
    have hdiv : desc.spanTokens / config.layout.chunkTokens = n := by
      rw [hspan, Nat.mul_div_cancel _ config.layout.chunkTokens_pos]
    -- the first file fixes the number of chunks
    have hchunks : ∀ {m files}, Ascends (openFile config fault s) config.layout.chunkTokens m
        entryId files → m = n := by
      intro m files h
      obtain ⟨last, hlast, -, hm, -⟩ := h.last
      rw [hopen] at hlast
      cases hlast
      exact Nat.eq_of_mul_eq_mul_right config.layout.chunkTokens_pos (hm.symm.trans hspan)
    obtain ⟨s', opened, r, -, hle, hrun, hend⟩ := @loopEnds config hooked fault s n hn entryId none
      [] fun d hd ↦ by
        rw [hopen] at hd
        cases hd
        simp [hspan]
    rcases hend with ⟨files, hfiles, rfl, hr⟩ | ⟨e, he, hr, hnone⟩
    · rw [List.append_nil] at hr
      have hwalk : ∀ rounds, n ≤ rounds → walkChain config hooked fault rounds s' entryId =
          some (finishWalk config hooked fault s' entryId opened files) := by
        intro rounds hrounds
        unfold walkChain
        rw [hrun rounds hrounds, hr]
      rcases @finishWalk_cases config hooked fault s' entryId n files hfiles opened with
        ⟨opened', objects, hle', hchained, hfinish⟩ | ⟨s'', opened', e, hle', he, hnone, hfinish⟩
      · refine ⟨s', opened', _, fun rounds _ hrounds ↦ ?_, fun d hd ↦ ?_, fun e he ↦ (by cases he),
          .inl ⟨n, objects, hchained, rfl, rfl⟩⟩
        · rw [hwalk rounds (hdiv ▸ hrounds desc rfl), hfinish]
        · cases hd
          omega
      · refine ⟨s'', opened', .error e, fun rounds _ hrounds ↦ ?_, fun d hd ↦ ?_,
          fun e he ↦ (by cases he), .inr ⟨e, he, rfl, hnone⟩⟩
        · rw [hwalk rounds (hdiv ▸ hrounds desc rfl), hfinish]
        · cases hd
          omega
    · refine ⟨s', opened, .error e, fun rounds _ hrounds ↦ ?_, fun d hd ↦ ?_,
        fun e he ↦ (by cases he), .inr ⟨e, he, rfl, fun m objects h ↦ ?_⟩⟩
      · rw [hr] at hrun
        exact walkChain_of_loop_error (hrun rounds (hdiv ▸ hrounds desc rfl))
      · cases hd
        omega
      · obtain ⟨files, hfiles⟩ := hfirst h
        exact hnone files (hchunks hfiles ▸ hfiles)

private theorem Ascends.unique {opens : Digest → Except PyError TokenFileDescriptor} {chunk : Nat}
    {n m : Nat} {key : Digest} {files files' : List TokenFileDescriptor}
    (h : Ascends opens chunk n key files) (h' : Ascends opens chunk m key files') :
    n = m ∧ files = files' := by
  induction h generalizing m files' with
  | first hopen _ hparent _ =>
    cases h' with
    | first hopen' _ _ _ =>
      rw [hopen] at hopen'
      cases hopen'
      exact ⟨rfl, rfl⟩
    | next _ hopen' _ hparent' _ =>
      rw [hopen] at hopen'
      cases hopen'
      rw [hparent] at hparent'
      cases hparent'
  | next _ hopen _ hparent _ ih =>
    cases h' with
    | first hopen' _ hparent' _ =>
      rw [hopen] at hopen'
      cases hopen'
      rw [hparent] at hparent'
      cases hparent'
    | next hfiles' hopen' _ hparent' _ =>
      rw [hopen] at hopen'
      cases hopen'
      rw [hparent] at hparent'
      cases hparent'
      obtain ⟨rfl, rfl⟩ := ih hfiles'
      exact ⟨rfl, rfl⟩

private theorem Chained.unique {entryId : Digest} {n m : Nat}
    {objects objects' : List TokenFileDescriptor} (h : Chained config fault s entryId n objects)
    (h' : Chained config fault s entryId m objects') : n = m ∧ objects = objects' := by
  cases h with
  | data hfiles hb =>
    cases h' with
    | data hfiles' _ => exact hfiles.unique hfiles'
    | state _ hb' _ _ _ _ =>
      rw [hb] at hb'
      cases hb'
  | state hfiles hb hopen _ _ _ =>
    cases h' with
    | data _ hb' =>
      rw [hb] at hb'
      cases hb'
    | state hfiles' _ hopen' _ _ _ =>
      obtain ⟨hn, rfl⟩ := hfiles.unique hfiles'
      rw [hopen] at hopen'
      cases hopen'
      exact ⟨hn, rfl⟩

/-- Whatever the files of a root are and wherever the system fails to open one, the walk ends: it
tries to open at most as many files as the first one has chunks, and one more. It returns a
snapshot exactly when the files of the entry are all there, namely these files in their order, and
then the coverage check passes; otherwise only an `OSError` or a `ManifestError` leaves it, so a
lookup never raises. -/
theorem chain_walk_exact (config : StoreConfig) (hooked : Bool) (fault : Digest → Option String)
    (s : RankState) (entryId : Digest) :
    (∃ s' opened r, (∀ rounds, 0 < rounds →
        (∀ desc, openFile config fault s entryId = .ok desc →
          desc.spanTokens / config.layout.chunkTokens ≤ rounds) →
        walkChain config hooked fault rounds s entryId = some (s', opened, r)) ∧
      (∀ desc, openFile config fault s entryId = .ok desc →
        opened ≤ desc.spanTokens / config.layout.chunkTokens + 1) ∧
      (∀ e, openFile config fault s entryId = .error e → opened = 1) ∧
      (∀ snapshot, r = .ok snapshot ↔ ∃ n objects, Chained config fault s entryId n objects ∧
        snapshot = ⟨entryId, n * config.layout.chunkTokens, objects⟩) ∧
      (∀ snapshot, r = .ok snapshot → s' = s) ∧
      ∀ e, r = .error e → WalkError e) ∧
    (∀ n objects, Chained config fault s entryId n objects →
      config.layout.validateManifestCoverage (n * config.layout.chunkTokens)
        (objects.flatMap TokenFileDescriptor.segments) = .ok ()) ∧
    ∀ verify, ∃ s' found, ∀ rounds, 0 < rounds →
      (∀ desc, openFile config fault s entryId = .ok desc →
        desc.spanTokens / config.layout.chunkTokens ≤ rounds) →
      walkLookup config hooked verify fault rounds s entryId = some (s', .ok found) := by
  obtain ⟨s', opened, r, hrun, hle, hone, hend⟩ := @walkChain_cases config hooked fault s entryId
  refine ⟨⟨s', opened, r, hrun, hle, hone, ?_⟩, fun n objects h ↦ h.covered, fun verify ↦ ?_⟩
  · rcases hend with ⟨n, objects, hchained, rfl, rfl⟩ | ⟨e, he, rfl, hnone⟩
    · refine ⟨fun snapshot ↦ ⟨fun h ↦ ⟨n, objects, hchained, (Except.ok.inj h).symm⟩, ?_⟩,
        fun _ _ ↦ rfl, fun e he ↦ (by cases he)⟩
      rintro ⟨m, objects', hchained', rfl⟩
      obtain ⟨rfl, rfl⟩ := hchained.unique hchained'
      rfl
    · refine ⟨fun snapshot ↦ ⟨fun h ↦ (by cases h), ?_⟩, fun _ h ↦ (by cases h), ?_⟩
      · rintro ⟨m, objects', hchained', -⟩
        exact absurd hchained' (hnone m objects')
      · intro e' he'
        cases he'
        exact he
  · unfold walkLookup
    rcases hend with ⟨n, objects, hchained, rfl, rfl⟩ | ⟨e, he, rfl, hnone⟩
    · cases verify with
      | false =>
        refine ⟨s', some ⟨entryId, n * config.layout.chunkTokens, objects⟩, fun rounds hpos hr ↦ ?_⟩
        rw [hrun rounds hpos hr]
        rfl
      | true =>
        cases hverify : verifyPayloads config hooked s' objects with
        | mk s'' good =>
          refine ⟨s'', if good then some ⟨entryId, n * config.layout.chunkTokens, objects⟩ else none,
            fun rounds hpos hr ↦ ?_⟩
          rw [hrun rounds hpos hr]
          dsimp only
          rw [if_pos rfl, hverify]
          cases good <;> rfl
    · refine ⟨s', none, fun rounds hpos hr ↦ ?_⟩
      rw [hrun rounds hpos hr]
      cases he <;> rfl

/-! ### The walk is the chain of the other modules -/

private theorem openNode_error {key : Digest} {e : PyError}
    (h : openChunk config s key false = .error e) :
    openNode config hooked s key =
      (if e = .fileNotFound then s else quarantineBad hooked s key, .error e) := by
  unfold openNode
  rw [h]
  split
  · next heq =>
    cases heq
    rfl
  · next hne heq =>
    cases heq
    rw [if_neg fun he ↦ hne (by rw [he])]
  · next heq => cases heq

/-- The loop below a file, as the recursion on the number of chunks. -/
theorem walkLoop_eq_chainBelow {n : Nat} (hn : 0 < n) (key : Digest)
    (objects : List TokenFileDescriptor) {rounds : Nat} (hrounds : n ≤ rounds) :
    ∃ opened, walkLoop config hooked (fun _ ↦ none) s rounds (some key)
        (some (n * config.layout.chunkTokens)) objects =
      some ((chainBelow config hooked n s key).1, opened,
        (chainBelow config hooked n s key).2.map fun rest ↦ rest.reverse ++ objects) := by
  induction n generalizing key objects rounds with
  | zero => exact absurd hn (lt_irrefl 0)
  | succ m ih =>
    obtain ⟨k, rfl⟩ := Nat.exists_eq_add_of_le hrounds
    rw [Nat.add_right_comm]
    cases hopen : openChunk config s key false with
    | error e =>
      have hfile : openFile config (fun _ ↦ none) s key = .error e := hopen
      refine ⟨1, ?_⟩
      rw [walkLoop_error hfile, chainBelow, openNode_error hopen]
      rfl
    | ok desc =>
      have hfile : openFile config (fun _ ↦ none) s key = .ok desc := hopen
      rw [walkLoop_ok hfile, chainBelow, openNode, hopen]
      dsimp only
      by_cases hkind : desc.kind ≠ .data
      · rw [if_pos hkind, if_pos hkind]
        exact ⟨1, rfl⟩
      rw [if_neg hkind, if_neg hkind]
      have hany : ((some ((m + 1) * config.layout.chunkTokens)).any fun span ↦
          decide (desc.spanTokens ≠ span)) = true ↔
          desc.spanTokens ≠ (m + 1) * config.layout.chunkTokens := by simp
      dsimp only
      by_cases hspan : desc.spanTokens ≠ (m + 1) * config.layout.chunkTokens
      · rw [if_pos (hany.mpr hspan), if_pos hspan]
        exact ⟨1, rfl⟩
      rw [if_neg fun h ↦ hspan (hany.mp h), if_neg hspan]
      have hspan := not_not.mp hspan
      cases hp : desc.parent with
      | none => exact ⟨1, by rw [walkLoop]; rfl⟩
      | some parent =>
        have hm : 0 < m := by
          obtain ⟨-, n, -, hchunks, hparent⟩ := chunks_of_openFile hfile
          have hsame := Nat.eq_of_mul_eq_mul_right config.layout.chunkTokens_pos
            (hchunks.symm.trans hspan)
          by_contra hzero
          have hone := (hparent (not_not.mp hkind)).mpr (by omega)
          rw [hp] at hone
          cases hone
        have hrest : desc.spanTokens - config.layout.chunkTokens =
            m * config.layout.chunkTokens := by
          rw [hspan, Nat.succ_mul, Nat.add_sub_cancel]
        obtain ⟨opened, hloop⟩ := ih hm parent (desc :: objects) (Nat.le_add_right m k)
        refine ⟨opened + 1, ?_⟩
        dsimp only
        rw [hrest, hloop]
        cases chainBelow config hooked m s parent with
        | mk s' r =>
          cases r with
          | error e => rfl
          | ok rest =>
            simp only [Option.map_some, Except.map, List.reverse_cons, List.append_assoc,
              List.singleton_append]

private theorem walkLoop_eq_dataChain (entryId : Digest) {rounds : Nat} (hpos : 0 < rounds)
    (hrounds : ∀ desc, openChunk config s entryId false = .ok desc →
      desc.spanTokens / config.layout.chunkTokens ≤ rounds) :
    ∃ opened, walkLoop config hooked (fun _ ↦ none) s rounds (some entryId) none [] =
      some ((dataChain config hooked s entryId).1, opened,
        (dataChain config hooked s entryId).2.map List.reverse) := by
  obtain ⟨k, rfl⟩ := Nat.exists_eq_succ_of_ne_zero hpos.ne'
  cases hopen : openChunk config s entryId false with
  | error e =>
    have hfile : openFile config (fun _ ↦ none) s entryId = .error e := hopen
    refine ⟨1, ?_⟩
    rw [walkLoop_error hfile, dataChain, openNode_error hopen]
    rfl
  | ok desc =>
    have hfile : openFile config (fun _ ↦ none) s entryId = .ok desc := hopen
    rw [walkLoop_ok hfile, dataChain, openNode, hopen]
    dsimp only [Option.any_none]
    by_cases hkind : desc.kind ≠ .data
    · rw [if_pos hkind, if_pos hkind]
      exact ⟨1, rfl⟩
    rw [if_neg hkind, if_neg hkind, if_neg Bool.false_ne_true]
    dsimp only
    cases hp : desc.parent with
    | none => exact ⟨1, by rw [walkLoop]; rfl⟩
    | some parent =>
      obtain ⟨-, n, hn, hchunks, hparent⟩ := chunks_of_openFile hfile
      have hdiv : desc.spanTokens / config.layout.chunkTokens = n := by
        rw [hchunks, Nat.mul_div_cancel _ config.layout.chunkTokens_pos]
      have hmore : 0 < n - 1 := by
        by_contra hzero
        have hone := (hparent (not_not.mp hkind)).mpr (by omega)
        rw [hp] at hone
        cases hone
      have hrest : desc.spanTokens - config.layout.chunkTokens =
          (n - 1) * config.layout.chunkTokens := by
        rw [hchunks, Nat.sub_mul, Nat.one_mul]
      have hle := hrounds desc hopen
      obtain ⟨opened, hloop⟩ := @walkLoop_eq_chainBelow config hooked s (n - 1) hmore parent [desc]
        k (by omega)
      refine ⟨opened + 1, ?_⟩
      dsimp only
      rw [hrest, hloop, hdiv]
      cases chainBelow config hooked (n - 1) s parent with
      | mk s' r =>
        cases r with
        | error e => rfl
        | ok rest => simp only [Option.map_some, Except.map, List.reverse_cons]

/-- Without failures of the system, the walk with enough rounds is the chain. -/
theorem walkChain_eq_chain (entryId : Digest) {rounds : Nat} (hpos : 0 < rounds)
    (hrounds : ∀ desc, openChunk config s entryId false = .ok desc →
      desc.spanTokens / config.layout.chunkTokens ≤ rounds) :
    ∃ opened, walkChain config hooked (fun _ ↦ none) rounds s entryId =
      some ((chain config hooked s entryId).1, opened, (chain config hooked s entryId).2) := by
  obtain ⟨opened, hloop⟩ := @walkLoop_eq_dataChain config hooked s entryId rounds hpos hrounds
  unfold walkChain chain
  rw [hloop]
  cases dataChain config hooked s entryId with
  | mk s' r =>
    cases r with
    | error e => exact ⟨opened, rfl⟩
    | ok descending =>
      simp only [Except.map]
      unfold finishWalk
      rw [List.head?_reverse, List.getLast?_reverse]
      cases descending.getLast? with
      | none => exact ⟨opened, rfl⟩
      | some first =>
        cases descending.head? with
        | none => exact ⟨opened, rfl⟩
        | some last =>
          dsimp only
          by_cases hfirst : first.spanTokens ≠ config.layout.chunkTokens
          · rw [if_pos hfirst, if_pos hfirst]
            exact ⟨opened, rfl⟩
          rw [if_neg hfirst, if_neg hfirst]
          by_cases hb : config.layout.hasBoundaryState = true
          · rw [if_pos hb, if_pos hb]
            have hstate : openState config hooked (fun _ ↦ none) s' entryId last.spanTokens =
                stateFile config hooked s' entryId last.spanTokens := rfl
            rw [hstate]
            refine ⟨opened + 1, ?_⟩
            cases stateFile config hooked s' entryId last.spanTokens with
            | mk s'' r => cases r <;> rfl
          · rw [if_neg hb, if_neg hb]
            exact ⟨opened, rfl⟩

end

end SpoolCache.Store
