import SpoolCache.Store.Steps

/-!
# What a hit is

A lookup that hits leaves the root as it was. Its snapshot lists the files of a chain as they open:
the data files of consecutive spans from the first chunk on, each the parent of the next, and the
state file of the last boundary where the layout has one.
-/

namespace SpoolCache.Store

open SpoolCache.Base SpoolCache.Layout SpoolCache.Prefix SpoolCache.Quorum

section

variable {config : StoreConfig}

/-- The parent that a valid header must have. -/
theorem parent_of_headerPayload {key : Digest} {header : TokenHeader} {segments : List PageSlice}
    (h : headerPayload config key header = .ok segments) :
    (header.kind = .data → (header.parent = none ↔ header.spanTokens = config.layout.chunkTokens)) ∧
      (header.kind = .state → config.layout.hasBoundaryState = true ∧
        header.parent.map boundaryStateKey = some key) ∧
      header.spanTokens % config.layout.chunkTokens = 0 := by
  have hpos := span_of_headerPayload h
  unfold headerPayload at h
  split at h
  · cases h
  · split at h
    · cases h
    · next hmod =>
      have hmod := not_not.mp hmod
      split at h
      · cases h
      · next hstate =>
        split at h
        · cases h
        · next hdata =>
          refine ⟨fun hk ↦ ?_, fun hk ↦ ?_, hmod⟩
          · have hle := Nat.le_of_dvd hpos.1 (Nat.dvd_of_mod_eq_zero hmod)
            constructor
            · intro hp
              by_contra hne
              exact hdata ⟨hk, .inr ⟨by omega, hp⟩⟩
            · intro hs
              by_contra hp
              exact hdata ⟨hk, .inl ⟨hs, hp⟩⟩
          · have hgood := not_not.mp fun hbad ↦ hstate ⟨hk, hbad⟩
            exact ⟨hgood.1, hgood.2.1⟩

/-- What the descriptor of an open file says of its parent. -/
theorem parent_of_openChunk {s : RankState} {key : Digest} {allowWithdrawn : Bool}
    {desc : TokenFileDescriptor} (h : openChunk config s key allowWithdrawn = .ok desc) :
    desc.key = key ∧
      (desc.kind = .data → (desc.parent = none ↔ desc.spanTokens = config.layout.chunkTokens)) ∧
      desc.spanTokens % config.layout.chunkTokens = 0 := by
  obtain ⟨-, file, header, segments, -, -, hp, rfl⟩ := openChunk_ok h
  obtain ⟨hdata, -, hmod⟩ := parent_of_headerPayload hp
  exact ⟨rfl, hdata, hmod⟩

/-! ### Chains -/

/-- The data files from a key down to the first chunk, newest first, as they open. -/
inductive Descends (config : StoreConfig) (s : RankState) :
    Nat → Digest → List TokenFileDescriptor → Prop where
  | first {key : Digest} {desc : TokenFileDescriptor}
      (hopen : openChunk config s key false = .ok desc) (hkind : desc.kind = .data)
      (hparent : desc.parent = none) (hspan : desc.spanTokens = config.layout.chunkTokens) :
      Descends config s 1 key [desc]
  | next {n : Nat} {key parent : Digest} {desc : TokenFileDescriptor}
      {rest : List TokenFileDescriptor} (hopen : openChunk config s key false = .ok desc)
      (hkind : desc.kind = .data) (hparent : desc.parent = some parent)
      (hspan : desc.spanTokens = (n + 1) * config.layout.chunkTokens)
      (hrest : Descends config s n parent rest) : Descends config s (n + 1) key (desc :: rest)

private theorem openNode_eq_ok {hooked : Bool} {s s' : RankState} {key : Digest}
    {desc : TokenFileDescriptor} (h : openNode config hooked s key = (s', .ok desc)) :
    s' = s ∧ openChunk config s key false = .ok desc ∧ desc.kind = .data := by
  unfold openNode at h
  split at h
  · cases h
  · cases h
  · next d ho =>
    split at h
    · cases h
    · next hk =>
      cases h
      exact ⟨rfl, ho, not_not.mp hk⟩

private theorem chainBelow_ok {hooked : Bool} {n : Nat} {s s' : RankState} {key : Digest}
    {l : List TokenFileDescriptor} (h : chainBelow config hooked n s key = (s', .ok l)) :
    s' = s ∧ Descends config s n key l := by
  induction n generalizing s key l with
  | zero =>
    unfold chainBelow at h
    split at h <;> cases h
  | succ m ih =>
    unfold chainBelow at h
    split at h
    · cases h
    · next s1 desc hnode =>
      obtain ⟨rfl, hopen, hkind⟩ := openNode_eq_ok hnode
      dsimp only at h
      split at h
      · cases h
      · next hspan =>
        have hspan := not_not.mp hspan
        split at h
        · next hparent =>
          cases h
          have hchunk := ((parent_of_openChunk hopen).2.1 hkind).mp hparent
          have hm : m = 0 := by
            have hone : (m + 1) * config.layout.chunkTokens = 1 * config.layout.chunkTokens := by
              rw [← hspan, hchunk, one_mul]
            have := Nat.eq_of_mul_eq_mul_right config.layout.chunkTokens_pos hone
            omega
          subst hm
          exact ⟨rfl, .first hopen hkind hparent hchunk⟩
        · next parent hparent =>
          split at h
          · cases h
          · next s2 rest hrest =>
            cases h
            obtain ⟨rfl, hdesc⟩ := ih hrest
            exact ⟨rfl, .next hopen hkind hparent hspan hdesc⟩

private theorem dataChain_ok {hooked : Bool} {s s' : RankState} {entryId : Digest}
    {l : List TokenFileDescriptor} (h : dataChain config hooked s entryId = (s', .ok l)) :
    s' = s ∧ ∃ n, Descends config s n entryId l := by
  unfold dataChain at h
  split at h
  · cases h
  · next s1 desc hnode =>
    obtain ⟨rfl, hopen, hkind⟩ := openNode_eq_ok hnode
    obtain ⟨-, hdata, hmod⟩ := parent_of_openChunk hopen
    have hpos := (headerSpan_of_openChunk hopen).2.2.1
    split at h
    · next hparent =>
      cases h
      exact ⟨rfl, 1, .first hopen hkind hparent ((hdata hkind).mp hparent)⟩
    · next parent hparent =>
      split at h
      · cases h
      · next s2 rest hrest =>
        cases h
        obtain ⟨rfl, hdesc⟩ := chainBelow_ok hrest
        refine ⟨rfl, _, .next hopen hkind hparent ?_ hdesc⟩
        obtain ⟨n, hn⟩ := Nat.dvd_of_mod_eq_zero hmod
        have hn0 : n ≠ 0 := by
          rintro rfl
          omega
        rw [hn, Nat.mul_div_cancel_left _ config.layout.chunkTokens_pos, Nat.sub_add_cancel (by omega),
          Nat.mul_comm]

private theorem stateFile_ok {hooked : Bool} {s s' : RankState} {entryId : Digest} {span : Nat}
    {state : TokenFileDescriptor} (h : stateFile config hooked s entryId span = (s', .ok state)) :
    s' = s ∧ openChunk config s (boundaryStateKey entryId) false = .ok state ∧
      state.kind = .state ∧ state.parent = some entryId ∧ state.spanTokens = span := by
  unfold stateFile at h
  dsimp only at h
  split at h
  · cases h
  · cases h
  · next d ho =>
    split at h
    · cases h
    · next heq =>
      cases h
      have heq := not_not.mp heq
      rw [Prod.mk.injEq, Prod.mk.injEq] at heq
      exact ⟨rfl, ho, heq⟩

/-- The files of a hit on an entry of some chunks, first chunk first. -/
inductive ChainOf (config : StoreConfig) (s : RankState) (entryId : Digest) :
    Nat → List TokenFileDescriptor → Prop where
  | data {n : Nat} {descending : List TokenFileDescriptor}
      (hdata : Descends config s n entryId descending)
      (hb : config.layout.hasBoundaryState = false) : ChainOf config s entryId n descending.reverse
  | state {n : Nat} {descending : List TokenFileDescriptor} {state : TokenFileDescriptor}
      (hdata : Descends config s n entryId descending)
      (hb : config.layout.hasBoundaryState = true)
      (hopen : openChunk config s (boundaryStateKey entryId) false = .ok state)
      (hkind : state.kind = .state) (hparent : state.parent = some entryId)
      (hspan : state.spanTokens = n * config.layout.chunkTokens) :
      ChainOf config s entryId n (descending.reverse ++ [state])

/-- A chain starts at the file of its key, with the whole span. -/
theorem Descends.head {s : RankState} {n : Nat} {key : Digest} {l : List TokenFileDescriptor}
    (h : Descends config s n key l) :
    ∃ desc rest, l = desc :: rest ∧ desc.key = key ∧
      desc.spanTokens = n * config.layout.chunkTokens := by
  cases h with
  | first hopen _ _ hspan =>
    exact ⟨_, [], rfl, (parent_of_openChunk hopen).1, by rw [hspan, one_mul]⟩
  | next hopen _ _ hspan _ => exact ⟨_, _, rfl, (parent_of_openChunk hopen).1, hspan⟩

private theorem Descends.open_of_mem {s : RankState} {n : Nat} {key : Digest}
    {l : List TokenFileDescriptor} (h : Descends config s n key l) {desc : TokenFileDescriptor}
    (hd : desc ∈ l) : openChunk config s desc.key false = .ok desc := by
  induction h with
  | first hopen _ _ _ =>
    rw [List.mem_singleton.mp hd, (parent_of_openChunk hopen).1]
    exact hopen
  | next hopen _ _ _ _ ih =>
    rcases List.mem_cons.mp hd with rfl | hd
    · rw [(parent_of_openChunk hopen).1]
      exact hopen
    · exact ih hd

/-- Every object of a hit is the file of its key as it opens. -/
theorem ChainOf.open_of_mem {s : RankState} {entryId : Digest} {n : Nat}
    {objects : List TokenFileDescriptor} (h : ChainOf config s entryId n objects)
    {desc : TokenFileDescriptor} (hd : desc ∈ objects) :
    openChunk config s desc.key false = .ok desc := by
  cases h with
  | data hdata _ => exact hdata.open_of_mem (List.mem_reverse.mp hd)
  | state hdata _ hopen _ _ _ =>
    rcases List.mem_append.mp hd with hd | hd
    · exact hdata.open_of_mem (List.mem_reverse.mp hd)
    · rw [List.mem_singleton.mp hd, (parent_of_openChunk hopen).1]
      exact hopen

/-! ### Lookups -/

/-- A covered snapshot is the objects as they came. -/
theorem coveredSnapshot_ok {entryId : Digest} {span : Nat} {objects : List TokenFileDescriptor}
    {snapshot : TokenSnapshot} (h : coveredSnapshot config entryId span objects = .ok snapshot) :
    snapshot = ⟨entryId, span, objects⟩ := by
  obtain ⟨_, -, he⟩ := bind_ok h
  cases he
  rfl

private theorem chain_ok {hooked : Bool} {s s' : RankState} {entryId : Digest}
    {snapshot : TokenSnapshot} (h : chain config hooked s entryId = (s', .ok snapshot)) :
    s' = s ∧ snapshot.entryId = entryId ∧ ∃ n, ChainOf config s entryId n snapshot.objects ∧
      snapshot.spanTokens = n * config.layout.chunkTokens := by
  unfold chain at h
  split at h
  · cases h
  · next s1 descending hchain =>
    obtain ⟨rfl, n, hdata⟩ := dataChain_ok hchain
    split at h
    · next first last _ hhead =>
      have hlast : last.spanTokens = n * config.layout.chunkTokens := by
        obtain ⟨desc, rest, rfl, -, hspan⟩ := hdata.head
        cases hhead
        exact hspan
      split at h
      · cases h
      · split at h
        · next hb =>
          split at h
          · cases h
          · next s2 state hstate =>
            obtain ⟨rfl, hopen, hkind, hparent, hspan⟩ := stateFile_ok hstate
            rw [Prod.mk.injEq] at h
            obtain ⟨rfl, hcovered⟩ := h
            rw [coveredSnapshot_ok hcovered]
            exact ⟨rfl, rfl, n, .state hdata hb hopen hkind hparent (hspan.trans hlast), hlast⟩
        · next hb =>
          rw [Prod.mk.injEq] at h
          obtain ⟨rfl, hcovered⟩ := h
          rw [coveredSnapshot_ok hcovered]
          exact ⟨rfl, rfl, n, .data hdata (by simpa using hb), hlast⟩
    · cases h

/-- A lookup that hits leaves the root as it was. -/
theorem lookup_hit {hooked : Bool} {s s' : RankState} {entryId : Digest} {snapshot : TokenSnapshot}
    (h : lookup config hooked s entryId = (s', .ok (some snapshot))) :
    s' = s ∧ snapshot.entryId = entryId ∧ ∃ n, ChainOf config s entryId n snapshot.objects ∧
      snapshot.spanTokens = n * config.layout.chunkTokens := by
  unfold lookup at h
  split at h
  · next hc =>
    cases h
    exact chain_ok hc
  all_goals cases h

/-- A restore view that hits pins the keys of its files and changes nothing else. -/
theorem restoreView_hit {hooked : Bool} {s s' : RankState} {entryId : Digest}
    {snapshot : TokenSnapshot}
    (h : restoreView config hooked s entryId = (s', .ok (some snapshot))) :
    s' = { s with pins := s.pins ++ [snapshot.objects.map TokenFileDescriptor.key] } ∧
      snapshot.entryId = entryId ∧ ∃ n, ChainOf config s entryId n snapshot.objects ∧
      snapshot.spanTokens = n * config.layout.chunkTokens := by
  unfold restoreView at h
  split at h
  · cases h
  · cases h
  · next s1 found hl =>
    cases h
    obtain ⟨rfl, hrest⟩ := lookup_hit hl
    exact ⟨rfl, hrest⟩

end

end SpoolCache.Store
