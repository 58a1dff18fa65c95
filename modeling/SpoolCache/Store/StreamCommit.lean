import SpoolCache.Store.HeaderWidth
import SpoolCache.Store.Publication

/-!
# Streamed and buffered publication

`commit_chunk` and `commit_stream`, `token_files.py:353–408`. A stream is written behind a header
without checksums, which is replaced in the end. The length of a header does not depend on its
checksums, so the replacement always fits, and both calls leave the same root behind.
-/

namespace SpoolCache.Store

open SpoolCache.Base SpoolCache.Layout SpoolCache.Base.Program

namespace TokenFileStore

private theorem length_encodeHeader {store : TokenFileStore} {p : HeaderPayload} {encoded : Bytes}
    (h : store.encodeHeader p = .ok encoded) :
    encoded.length = frameSize + (Json.canonicalJson (store.headerJson p)).length := by
  unfold encodeHeader at h
  dsimp only at h
  split at h
  · cases h
  · cases h
    exact length_frame _

/-- Headers of one geometry are both encoded or both refused. -/
theorem encodeHeader_congr {store : TokenFileStore} {p q : HeaderPayload}
    (h : (Json.canonicalJson (store.headerJson p)).length =
      (Json.canonicalJson (store.headerJson q)).length) :
    (∃ a b, store.encodeHeader p = .ok a ∧ store.encodeHeader q = .ok b ∧ a.length = b.length) ∨
      ∃ e, store.encodeHeader p = .error e ∧ store.encodeHeader q = .error e := by
  unfold encodeHeader
  dsimp only
  rw [h]
  split
  · exact .inr ⟨_, rfl, rfl⟩
  · refine .inl ⟨_, _, rfl, rfl, ?_⟩
    rw [length_frame, length_frame, h]

end TokenFileStore

/-! ### Undisturbed writes -/

/-- Every `writev` takes at least one byte. -/
structure PublishEnv.Progress (env : PublishEnv) : Prop where
  header : ∀ n ∈ env.headerWrites, 0 < n
  pieces : ∀ i, ∀ n ∈ env.pieceWrites i, 0 < n
  final : ∀ n ∈ env.finalWrites, 0 < n

/-- The root with these bytes in a temporary. -/
def Disk.withData (d : Disk) (nonce : Nat) (data : Bytes) : Disk :=
  { d with tmp := d.tmp.modify nonce fun _ ↦ ⟨data, false⟩ }

private theorem withData_withData (d : Disk) (nonce : Nat) (a b : Bytes) :
    (d.withData nonce a).withData nonce b = d.withData nonce b := by
  unfold Disk.withData
  dsimp only
  rw [Directory.modify_modify]
  rfl

private theorem get?_withData {d : Disk} {nonce : Nat} {f : DiskFile}
    (h : d.tmp.get? nonce = some f)
    (data : Bytes) : (d.withData nonce data).tmp.get? nonce = some ⟨data, false⟩ := by
  unfold Disk.withData
  dsimp only
  rw [Directory.get?_modify, if_pos rfl, h]
  rfl

/-- A temporary that was written to has its new bytes. -/
theorem modify_write {d : Disk} {nonce offset : Nat} {f : DiskFile} {data : Bytes}
    (h : d.tmp.get? nonce = some f) :
    ({ d with tmp := d.tmp.modify nonce fun f ↦ f.write offset data } : Disk) =
      d.withData nonce (f.write offset data).data := by
  unfold Disk.withData Directory.modify
  rw [h]
  rfl

private theorem writev_run {d : Disk} {nonce : Nat} {f : DiskFile} (h : d.tmp.get? nonce = some f)
    (offset : Nat) (data : Bytes) :
    writev nonce offset data ⟨[], d⟩ =
      (.returned (), ⟨[], d.withData nonce (f.write offset data).data⟩) := by
  rw [← modify_write h]
  rfl

/-- Undisturbed, a write of some bytes has its whole effect. -/
theorem writeVector_run {nonce : Nat} {counts : List Nat} (hcounts : ∀ n ∈ counts, 0 < n)
    {d : Disk} {f : DiskFile} (h : d.tmp.get? nonce = some f) {offset : Nat}
    (hoffset : offset ≤ f.data.length) {data : Bytes} (hdata : data ≠ []) :
    writeVector nonce counts offset data ⟨[], d⟩ =
      (.returned (), ⟨[], d.withData nonce (f.write offset data).data⟩) := by
  induction counts generalizing d f offset data with
  | nil =>
    unfold writeVector
    rw [if_neg hdata]
    exact writev_run h offset data
  | cons count counts ih =>
    have hpos := hcounts count List.mem_cons_self
    have hrest : ∀ n ∈ counts, 0 < n := fun n hn ↦ hcounts n (List.mem_cons_of_mem _ hn)
    unfold writeVector
    rw [if_neg hdata, if_neg hpos.ne', bind_of_returned (writev_run h offset (data.take count))]
    by_cases hdone : data.drop count = []
    · have htake : data.take count = data := by
        have hsplit := List.take_append_drop count data
        rwa [hdone, List.append_nil] at hsplit
      rw [hdone, htake]
      cases counts <;> rfl
    · have hlen : offset + (data.take count).length ≤
          (⟨(f.write offset (data.take count)).data, false⟩ : DiskFile).data.length := by
        unfold DiskFile.write
        dsimp only
        rw [List.length_append, List.length_append, List.length_take_of_le hoffset]
        omega
      rw [ih hrest (get?_withData h _) hlen hdone, withData_withData]
      have hwrite := write_write hoffset (data.take count) (data.drop count)
      rw [List.take_append_drop] at hwrite
      rw [← hwrite]
      rfl

/-- What remains of a payload after pieces of the expected lengths. -/
def remainingAfter (slotBytes : Nat) : Nat → List Bytes → Option Nat
  | remaining, [] => some remaining
  | remaining, piece :: rest =>
    if min remaining slotBytes = 0 ∨ piece.length ≠ min remaining slotBytes then none
    else remainingAfter slotBytes (remaining - min remaining slotBytes) rest

/-- The loop over the pieces of a stream, undisturbed. -/
theorem writePieces_run {store : TokenFileStore} {env : PublishEnv} (henv : env.Progress)
    {d : Disk} {f : DiskFile} (h : d.tmp.get? env.nonce = some f) (head : Bytes)
    (pieces : List Bytes) (index remaining : Nat) (written : List Bytes) :
    match remainingAfter store.slotBytes remaining pieces with
    | some left => writePieces store env (pieces.map .ok) index (head ++ written.flatten).length
        remaining written ⟨[], d.withData env.nonce (head ++ written.flatten)⟩ =
      (.returned (written ++ pieces, left),
        ⟨[], d.withData env.nonce (head ++ (written ++ pieces).flatten)⟩)
    | none => ∃ data, writePieces store env (pieces.map .ok) index
        (head ++ written.flatten).length remaining written
        ⟨[], d.withData env.nonce (head ++ written.flatten)⟩ =
      (.raised (.manifestError "captured transfer range differs from geometry"),
        ⟨[], d.withData env.nonce data⟩) := by
  induction pieces generalizing index remaining written with
  | nil =>
    dsimp only [remainingAfter]
    rw [List.append_nil]
    rfl
  | cons piece pieces ih =>
    by_cases hbad : min remaining store.slotBytes = 0 ∨
        piece.length ≠ min remaining store.slotBytes
    · rw [remainingAfter, if_pos hbad]
      refine ⟨head ++ written.flatten, ?_⟩
      rw [List.map_cons, writePieces, if_pos hbad]
      rfl
    · have hpiece : piece ≠ [] := by
        rintro rfl
        rw [not_or, not_not] at hbad
        exact hbad.1 hbad.2.symm
      have hwrite := writeVector_run (henv.pieces index)
        (get?_withData h (head ++ written.flatten)) (le_refl (head ++ written.flatten).length) hpiece
      rw [write_end, withData_withData, List.append_assoc, ← List.flatten_concat] at hwrite
      have hlength : (head ++ written.flatten).length + piece.length =
          (head ++ (written ++ [piece]).flatten).length := by
        rw [List.flatten_concat, List.length_append, List.length_append, List.length_append]
        omega
      have hnext := ih (index + 1) (remaining - min remaining store.slotBytes) (written ++ [piece])
      rw [List.append_assoc, List.singleton_append, ← hlength] at hnext
      rw [remainingAfter, if_neg hbad]
      have hstep : writePieces store env ((piece :: pieces).map .ok) index
          (head ++ written.flatten).length remaining written
          ⟨[], d.withData env.nonce (head ++ written.flatten)⟩ =
          writePieces store env (pieces.map .ok) (index + 1)
            ((head ++ written.flatten).length + piece.length)
            (remaining - min remaining store.slotBytes) (written ++ [piece])
            ⟨[], d.withData env.nonce (head ++ (written ++ [piece]).flatten)⟩ := by
        rw [List.map_cons, writePieces, if_neg hbad, bind_of_returned hwrite]
        rfl
      rw [hstep]
      exact hnext

/-! ### Lengths of pieces -/

/-- The lengths of the pieces of a payload: full ones, and a remainder that is not empty. -/
def pieceLengths (slotBytes total : Nat) : List Nat :=
  List.replicate ((total - 1) / slotBytes) slotBytes ++
    [total - (total - 1) / slotBytes * slotBytes]

private theorem remainder_bounds {slotBytes total : Nat} (hslot : 0 < slotBytes)
    (htotal : 0 < total) :
    0 < total - (total - 1) / slotBytes * slotBytes ∧
      total - (total - 1) / slotBytes * slotBytes ≤ slotBytes := by
  have hdiv := Nat.div_add_mod (total - 1) slotBytes
  have hmod := Nat.mod_lt (total - 1) hslot
  rw [Nat.mul_comm] at hdiv
  omega

private theorem pieceLengths_cons {slotBytes total : Nat} (hslot : 0 < slotBytes)
    (htotal : slotBytes < total) :
    pieceLengths slotBytes total = slotBytes :: pieceLengths slotBytes (total - slotBytes) := by
  have hdiv : (total - 1) / slotBytes = (total - slotBytes - 1) / slotBytes + 1 := by
    have hsub : total - 1 = total - slotBytes - 1 + slotBytes := by omega
    rw [hsub, Nat.add_div_right _ hslot]
  have hlast : total - ((total - slotBytes - 1) / slotBytes + 1) * slotBytes =
      total - slotBytes - (total - slotBytes - 1) / slotBytes * slotBytes := by
    rw [Nat.add_mul, Nat.one_mul]
    omega
  unfold pieceLengths
  rw [hdiv, List.replicate_succ, List.cons_append, hlast]

private theorem remainingAfter_zero (slotBytes : Nat) (pieces : List Bytes) :
    remainingAfter slotBytes 0 pieces = some 0 ↔ pieces = [] := by
  cases pieces with
  | nil => exact ⟨fun _ ↦ rfl, fun _ ↦ rfl⟩
  | cons piece pieces =>
    rw [remainingAfter, Nat.zero_min, if_pos (.inl rfl)]
    exact ⟨fun h ↦ (by cases h), fun h ↦ (by cases h)⟩

/-- Nothing remains exactly after pieces of these lengths. -/
theorem remainingAfter_iff {slotBytes : Nat} (hslot : 0 < slotBytes) {total : Nat}
    (htotal : 0 < total) (pieces : List Bytes) :
    remainingAfter slotBytes total pieces = some 0 ↔
      pieces.map List.length = pieceLengths slotBytes total := by
  induction pieces generalizing total with
  | nil =>
    refine ⟨fun h ↦ ?_, fun h ↦ ?_⟩
    · cases h
      exact absurd htotal (lt_irrefl 0)
    · have hlength := congrArg List.length h
      unfold pieceLengths at hlength
      rw [List.length_append, List.map_nil, List.length_nil, List.length_singleton] at hlength
      omega
  | cons piece pieces ih =>
    rcases Nat.lt_or_ge slotBytes total with hlt | hge
    · rw [pieceLengths_cons hslot hlt, List.map_cons, List.cons.injEq, remainingAfter,
        Nat.min_eq_right hlt.le, ← ih (by omega)]
      split
      · next hbad =>
        refine ⟨fun h ↦ (by cases h), fun h ↦ ?_⟩
        rcases hbad with hzero | hne
        · omega
        · exact absurd h.1 hne
      · next hgood =>
        rw [not_or, not_not] at hgood
        exact ⟨fun h ↦ ⟨hgood.2, h⟩, fun h ↦ h.2⟩
    · have hone : pieceLengths slotBytes total = [total] := by
        unfold pieceLengths
        rw [Nat.div_eq_of_lt (by omega), Nat.zero_mul, Nat.sub_zero]
        rfl
      rw [hone, List.map_cons, List.cons.injEq, List.map_eq_nil_iff, remainingAfter,
        Nat.min_eq_left hge]
      split
      · next hbad =>
        refine ⟨fun h ↦ (by cases h), fun h ↦ ?_⟩
        rcases hbad with hzero | hne
        · omega
        · exact absurd h.1 hne
      · next hgood =>
        rw [not_or, not_not] at hgood
        rw [Nat.sub_self, remainingAfter_zero]
        exact ⟨fun h ↦ ⟨hgood.2, h⟩, fun h ↦ h.2⟩

/-- Pieces that leave nothing are the transfer blocks of what they make up. -/
theorem pieces_of_remainingAfter {slotBytes total : Nat} {pieces : List Bytes}
    (h : remainingAfter slotBytes total pieces = some 0) :
    pieces.flatten.length = total ∧ pieces = TokenFileStore.pieces slotBytes pieces.flatten := by
  induction pieces generalizing total with
  | nil =>
    cases h
    exact ⟨rfl, (TokenFileStore.pieces_nil _).symm⟩
  | cons piece pieces ih =>
    rw [remainingAfter] at h
    split at h
    · cases h
    · next hgood =>
      rw [not_or, not_not] at hgood
      obtain ⟨hlength, hpieces⟩ := ih h
      have hne : piece ≠ [] := by
        rintro rfl
        exact hgood.1 hgood.2.symm
      constructor
      · rw [List.flatten_cons, List.length_append]
        omega
      · rw [List.flatten_cons, TokenFileStore.pieces_append hne, ← hpieces]
        rcases Nat.lt_or_ge slotBytes total with hlt | hge
        · exact .inl (by omega)
        · exact .inr ⟨by omega, List.length_eq_zero_iff.mp (by omega)⟩

private theorem remainingAfter_pieces {slotBytes : Nat} (hslot : 0 < slotBytes) (payload : Bytes) :
    remainingAfter slotBytes payload.length (TokenFileStore.pieces slotBytes payload) = some 0 := by
  induction hn : payload.length using Nat.strong_induction_on generalizing payload with
  | _ n ih =>
    subst hn
    by_cases hempty : payload = []
    · rw [hempty, TokenFileStore.pieces_nil]
      rfl
    · have hpos : 0 < payload.length := List.length_pos_iff.mpr hempty
      have hrest : payload.length - min payload.length slotBytes =
          (payload.drop slotBytes).length := by
        rw [List.length_drop]
        omega
      rw [TokenFileStore.pieces_cons hslot hempty, remainingAfter, if_neg, hrest]
      · exact ih _ (by rw [List.length_drop]; omega) (payload.drop slotBytes) rfl
      · rw [not_or, not_not, List.length_take]
        omega

/-! ### Undisturbed streams -/

section

variable {store : TokenFileStore} {env : PublishEnv} (henv : env.Progress) {key : Digest}
  {header : TokenHeader}

private theorem frame_ne_nil {p : HeaderPayload} {encoded : Bytes}
    (h : store.encodeHeader p = .ok encoded) : encoded ≠ [] := by
  have hlength := TokenFileStore.length_encodeHeader h
  rintro rfl
  rw [List.length_nil] at hlength
  unfold TokenFileStore.frameSize at hlength
  omega

/-- The header with the checksums of the pieces. -/
def filledHeader (p : HeaderPayload) (written : List Bytes) : HeaderPayload :=
  { p with digest := sha256 written.flatten, blockSha256 := written.map sha256 }

include henv

/-- A stream whose pieces have the lengths of its blocks is written behind its final header;
another one is refused, with nothing but its temporary touched. -/
theorem writeStream_run {p : HeaderPayload} {encoded final : Bytes} {pieces : List Bytes}
    (hencode : store.encodeHeader p = .ok encoded)
    (hfinal : remainingAfter store.slotBytes p.byteLength pieces = some 0 →
      store.encodeHeader (filledHeader p pieces) = .ok final ∧ final.length = encoded.length)
    {d : Disk} (h : d.tmp.get? env.nonce = some ⟨[], false⟩) :
    if remainingAfter store.slotBytes p.byteLength pieces = some 0 then
      writeStream store env p (pieces.map .ok) encoded ⟨[], d⟩ =
        (.returned (), ⟨[], d.withData env.nonce (final ++ pieces.flatten)⟩)
    else ∃ message data, writeStream store env p (pieces.map .ok) encoded ⟨[], d⟩ =
      (.raised (.manifestError message), ⟨[], d.withData env.nonce data⟩) := by
  have hhead := writeVector_run henv.header h (Nat.zero_le _) (frame_ne_nil hencode)
  have hdata : ((⟨[], false⟩ : DiskFile).write 0 encoded).data = encoded := write_end [] encoded false
  rw [hdata] at hhead
  have hloop := @writePieces_run store env henv d _ h encoded pieces 0 p.byteLength []
  rw [List.flatten_nil, List.append_nil, List.nil_append] at hloop
  cases hleft : remainingAfter store.slotBytes p.byteLength pieces with
  | none =>
    rw [hleft] at hloop
    obtain ⟨data, hloop⟩ := hloop
    rw [if_neg (by simp)]
    refine ⟨"captured transfer range differs from geometry", data, ?_⟩
    unfold writeStream
    rw [bind_of_returned hhead, bind_of_raised hloop]
  | some left =>
    rw [hleft] at hloop hfinal
    dsimp only at hloop
    by_cases hzero : left = 0
    · subst hzero
      obtain ⟨hfilled, hlength⟩ := hfinal rfl
      rw [if_pos rfl]
      have hover := writeVector_run henv.final (get?_withData h (encoded ++ pieces.flatten))
        (Nat.zero_le _) (frame_ne_nil hfilled)
      rw [write_front hlength, withData_withData] at hover
      unfold writeStream
      rw [bind_of_returned hhead, bind_of_returned hloop]
      have hok : ofExcept (store.encodeHeader (filledHeader p pieces))
          (⟨[], d.withData env.nonce (encoded ++ pieces.flatten)⟩ : Machine Disk) =
          (.returned final, ⟨[], d.withData env.nonce (encoded ++ pieces.flatten)⟩) := by
        rw [hfilled]
        rfl
      dsimp only
      rw [if_neg (not_not.mpr rfl)]
      refine (bind_of_returned hok).trans ?_
      rw [if_neg (not_not.mpr hlength)]
      exact hover
    · rw [if_neg (fun hsome ↦ hzero (Option.some.inj hsome))]
      refine ⟨"captured token stream is incomplete", encoded ++ pieces.flatten, ?_⟩
      unfold writeStream
      rw [bind_of_returned hhead, bind_of_returned hloop]
      dsimp only
      rw [if_pos hzero]
      rfl

omit henv in
/-- The pieces make up the payload. -/
theorem flatten_pieces {slotBytes : Nat} (hslot : 0 < slotBytes) (payload : Bytes) :
    (TokenFileStore.pieces slotBytes payload).flatten = payload := by
  induction hn : payload.length using Nat.strong_induction_on generalizing payload with
  | _ n ih =>
    subst hn
    by_cases hempty : payload = []
    · rw [hempty, TokenFileStore.pieces_nil]
      rfl
    · have hpos : 0 < payload.length := List.length_pos_iff.mpr hempty
      rw [TokenFileStore.pieces_cons hslot hempty, List.flatten_cons,
        ih _ (by rw [List.length_drop]; omega) (payload.drop slotBytes) rfl,
        List.take_append_drop]

omit henv in
private theorem length_filledHeader {p : HeaderPayload} {pieces : List Bytes}
    (hcount : p.blockSha256.length = store.transferBlocks p.byteLength)
    (hall : remainingAfter store.slotBytes p.byteLength pieces = some 0) :
    (Json.canonicalJson (store.headerJson (filledHeader p pieces))).length =
      (Json.canonicalJson (store.headerJson p)).length := by
  obtain ⟨hlength, hpieces⟩ := pieces_of_remainingAfter hall
  have hblocks : (pieces.map sha256).length = p.blockSha256.length := by
    rw [hcount, List.length_map, congrArg List.length hpieces, TokenFileStore.length_pieces,
      hlength]
    rfl
  unfold filledHeader
  apply store.length_canonicalJson_headerJson
  · rfl
  · rfl
  · rfl
  · exact hblocks

omit henv in
/-- The final header of a stream has the length of the one it replaces. -/
theorem encodeHeader_filledHeader {p : HeaderPayload} {encoded : Bytes} {pieces : List Bytes}
    (hcount : p.blockSha256.length = store.transferBlocks p.byteLength)
    (hencode : store.encodeHeader p = .ok encoded)
    (hall : remainingAfter store.slotBytes p.byteLength pieces = some 0) :
    ∃ final, store.encodeHeader (filledHeader p pieces) = .ok final ∧
      final.length = encoded.length := by
  rcases TokenFileStore.encodeHeader_congr (length_filledHeader hcount hall) with
    ⟨final, encoded', hfinal, hencode', hlengths⟩ | ⟨e, -, herror⟩
  · rw [hencode] at hencode'
    cases hencode'
    exact ⟨final, hfinal, hlengths⟩
  · rw [hencode] at herror
    cases herror

/-- Before its link, a stream with the right pieces leaves the root as the whole payload does. -/
theorem writeStream_eq {p : HeaderPayload} {payload encoded final : Bytes}
    (hcount : p.blockSha256.length = store.transferBlocks p.byteLength)
    (hlength : payload.length = p.byteLength) (hencode : store.encodeHeader p = .ok encoded)
    (hfinal : store.encodeHeader (filledHeader p (TokenFileStore.pieces store.slotBytes payload)) =
      .ok final) {d : Disk} (h : d.tmp.get? env.nonce = some ⟨[], false⟩) :
    writeStream store env p ((TokenFileStore.pieces store.slotBytes payload).map .ok) encoded ⟨[], d⟩ =
      writeVector env.nonce env.headerWrites 0 (final ++ payload) ⟨[], d⟩ := by
  have hall := remainingAfter_pieces store.slotBytes_pos payload
  rw [hlength] at hall
  obtain ⟨final', hfinal', hlengths⟩ := encodeHeader_filledHeader hcount hencode hall
  rw [hfinal] at hfinal'
  cases hfinal'
  have hstream := writeStream_run henv hencode (fun _ ↦ ⟨hfinal, hlengths⟩) h
  rw [if_pos hall, flatten_pieces store.slotBytes_pos] at hstream
  have hne : final ++ payload ≠ [] := List.append_ne_nil_of_left_ne_nil (frame_ne_nil hfinal) _
  have hchunk := writeVector_run henv.header h (Nat.zero_le _) hne
  have hdata : ((⟨[], false⟩ : DiskFile).write 0 (final ++ payload)).data = final ++ payload :=
    write_end [] _ false
  rw [hdata] at hchunk
  rw [hstream, hchunk]

omit henv in
private theorem publishTemporary_congr {write write' : DiskProgram Unit} {m : Machine Disk}
    (h : write m = write' m) :
    publishTemporary env key write m = publishTemporary env key write' m := by
  unfold publishTemporary
  refine bind_congr (onError_congr ?_ _) _
  unfold writeAndLink prepareTemporary
  exact bind_congr (bind_congr h _) _

omit henv in
/-- Publications run alike when what they write into a new temporary does. -/
theorem publishUnfenced_congr {p q : HeaderPayload} {write write' : Bytes → DiskProgram Unit}
    (hlength : (Json.canonicalJson (store.headerJson p)).length =
      (Json.canonicalJson (store.headerJson q)).length)
    (hwrite : ∀ a b, store.encodeHeader p = .ok a → store.encodeHeader q = .ok b → ∀ d : Disk,
      d.tmp.get? env.nonce = some ⟨[], false⟩ → write a ⟨[], d⟩ = write' b ⟨[], d⟩) (d : Disk) :
    publishUnfenced store env key p write ⟨[], d⟩ =
      publishUnfenced store env key q write' ⟨[], d⟩ := by
  unfold publishUnfenced
  rcases TokenFileStore.encodeHeader_congr hlength with ⟨a, b, ha, hb, -⟩ | ⟨e, hp, hq⟩
  · rw [ha, hb]
    have hthere : pathExists key ⟨[], d⟩ = (.returned (d.files.get? key).isSome, ⟨[], d⟩) := rfl
    have hok : ∀ x : Bytes, (ofExcept (.ok x) : DiskProgram Bytes) ⟨[], d⟩ =
        (.returned x, ⟨[], d⟩) := fun _ ↦ rfl
    rw [bind_of_returned (hok a), bind_of_returned (hok b), bind_of_returned hthere,
      bind_of_returned hthere]
    split
    · rfl
    · cases htmp : d.tmp.get? env.nonce with
      | some f =>
        have hcreate : createTemporary env.nonce ⟨[], d⟩ =
            (.raised (.osError "file exists"), ⟨[], d⟩) := by
          unfold createTemporary Program.call
          dsimp only
          rw [htmp]
          rfl
        rw [bind_of_raised hcreate, bind_of_raised hcreate]
      | none =>
        have hcreate : createTemporary env.nonce ⟨[], d⟩ =
            (.returned (), ⟨[], { d with tmp := d.tmp.put env.nonce ⟨[], false⟩ }⟩) := by
          unfold createTemporary Program.call
          dsimp only
          rw [htmp]
          rfl
        rw [bind_of_returned hcreate, bind_of_returned hcreate]
        refine publishTemporary_congr (hwrite a b ha hb _ ?_)
        exact (Directory.get?_put _ _ _ _).trans (if_pos rfl)
  · have herror : (ofExcept (.error e) : DiskProgram Bytes) ⟨[], d⟩ = (.raised e, ⟨[], d⟩) := rfl
    rw [hp, hq, bind_of_raised herror, bind_of_raised herror]

omit henv in
/-- A header that the geometry refuses is refused with the same error for any checksums. -/
theorem headerPayload_error {digest : Digest} {blocks : Option (List Digest)} {e : PyError}
    (h : Store.headerPayload store.config key header = .error e) :
    store.headerPayload key header digest blocks = .error e := by
  unfold TokenFileStore.headerPayload
  rw [h]
  rfl

omit henv in
/-- A header without checksums passes whatever the geometry accepts. -/
theorem headerPayload_placeholder {segments : List PageSlice}
    (h : Store.headerPayload store.config key header = .ok segments) :
    ∃ p, store.headerPayload key header (.ofNat 0) none = .ok p := by
  unfold TokenFileStore.headerPayload
  rw [h, ok_bind]
  dsimp only [Option.getD_none]
  rw [if_neg]
  · exact ⟨_, rfl⟩
  · rw [not_or, not_not, not_and, not_not]
    refine ⟨List.length_replicate, fun hone ↦ ?_⟩
    rw [hone]
    rfl

/-- A payload of the geometry's length is published alike whole and in its transfer blocks. -/
theorem commit_stream_eq_chunk {payload : Bytes}
    (hlength : ∀ segments, Store.headerPayload store.config key header = .ok segments →
      payload.length = (segments.map PageSlice.byteLength).sum) (d : Disk) :
    commit store env key header
        (.stream ((TokenFileStore.pieces store.slotBytes payload).map .ok)) ⟨[], d⟩ =
      commit store env key header (.chunk payload) ⟨[], d⟩ := by
  rw [commit_eq, commit_eq]
  refine bind_congr ?_ _
  change commitStreamUnfenced store env key header _ ⟨[], d⟩ =
    commitChunkUnfenced store env key header payload ⟨[], d⟩
  unfold commitStreamUnfenced commitChunkUnfenced
  cases hgeometry : Store.headerPayload store.config key header with
  | error e =>
    have herror : (ofExcept (.error e) : DiskProgram HeaderPayload) ⟨[], d⟩ =
        (.raised e, ⟨[], d⟩) := rfl
    have hchunk : store.commitHeader key header payload = .error e := by
      unfold TokenFileStore.commitHeader
      rw [headerPayload_error hgeometry]
      rfl
    rw [headerPayload_error hgeometry, hchunk, bind_of_raised herror, bind_of_raised herror]
  | ok segments =>
    obtain ⟨p, hp⟩ := headerPayload_placeholder hgeometry
    obtain ⟨hsegments, -, -, -, hbytes, hcount, -⟩ := TokenFileStore.headerPayload_ok hp
    have hlength : payload.length = p.byteLength := (hlength _ hsegments).trans hbytes.symm
    have hheader := commitHeader_of_stream hp hlength
    have hfilled : store.commitHeader key header payload =
        .ok (filledHeader p (TokenFileStore.pieces store.slotBytes payload)) := by
      unfold filledHeader
      rw [hheader, flatten_pieces store.slotBytes_pos]
    have hall := remainingAfter_pieces store.slotBytes_pos payload
    rw [hlength] at hall
    have hok : ∀ q : HeaderPayload, (ofExcept (.ok q) : DiskProgram HeaderPayload) ⟨[], d⟩ =
        (.returned q, ⟨[], d⟩) := fun _ ↦ rfl
    rw [hp, hfilled, bind_of_returned (hok _), bind_of_returned (hok _)]
    refine publishUnfenced_congr (length_filledHeader hcount hall).symm ?_ d
    intro a b ha hb d' h
    exact writeStream_eq henv hcount hlength ha hb h

end

/-! ### Undisturbed publications -/

section

variable {store : TokenFileStore} {env : PublishEnv} {key : Digest}

/-- An empty temporary for a key without a file. -/
def Blank (env : PublishEnv) (key : Digest) (d : Disk) : Prop :=
  d.tmp.get? env.nonce = some ⟨[], false⟩ ∧ d.files.get? key = none

/-- A temporary with these bytes for a key without a file. -/
def Staged (env : PublishEnv) (key : Digest) (data : Bytes) (synced : Bool) (d : Disk) : Prop :=
  d.tmp.get? env.nonce = some ⟨data, synced⟩ ∧ d.files.get? key = none

private theorem returns_checkpoint {P : Disk → Prop} (point : String) :
    Returns P (checkpoint point) fun _ ↦ P := returns_update fun _ h ↦ h

private theorem returns_closeFile {P : Disk → Prop} : Returns P closeFile fun _ ↦ P :=
  returns_update fun _ h ↦ h

private theorem returns_writeAndLink {write : DiskProgram Unit} {data : Bytes}
    (hwrite : Returns (Blank env key) write fun _ ↦ Staged env key data false) :
    Returns (Blank env key) (writeAndLink env key write) fun _ d ↦
      d.tmp.get? env.nonce = some ⟨data, true⟩ ∧ d.files.get? key = some ⟨data, true⟩ := by
  unfold writeAndLink prepareTemporary ensureShardDirectory
  refine Returns.bind (X := fun _ d ↦ Staged env key data true d ∧
    d.manifests.get? (shard key) ≠ none) ?_ fun _ ↦ returns_call fun d h ↦ ?_
  · refine Returns.bind hwrite fun _ ↦ Returns.bind (X := fun _ ↦ Staged env key data true)
      (returns_update fun d h ↦ ⟨?_, h.2⟩) fun _ ↦
      Returns.bind (returns_checkpoint _) fun _ ↦ Returns.bind
        (X := fun _ d ↦ Staged env key data true d ∧ d.manifests.get? (shard key) ≠ none)
        (returns_update fun d h ↦ ?_) fun _ ↦ returns_update fun d h ↦ h
    · change (d.tmp.modify env.nonce _).get? env.nonce = _
      rw [Directory.get?_modify, if_pos rfl, h.1]
      rfl
    · split
      · next hshard => exact ⟨h, Option.isSome_iff_ne_none.mp hshard⟩
      · refine ⟨h, ?_⟩
        change (d.manifests.put (shard key) ()).get? (shard key) ≠ none
        rw [Directory.get?_put, if_pos rfl]
        exact Option.some_ne_none ()
  · obtain ⟨⟨htmp, hfile⟩, hshard⟩ := h
    obtain ⟨u, hshard⟩ := Option.ne_none_iff_exists'.mp hshard
    refine ⟨(), { d with
      files := d.files.put key ⟨data, true⟩, journal := d.journal ++ [.linked key] }, ?_, htmp, ?_⟩
    · rw [htmp, hshard, hfile]
    · exact (Directory.get?_put _ _ _ _).trans (if_pos rfl)

private theorem returns_retireTemporary {data : Bytes} :
    Returns (fun d ↦ d.tmp.get? env.nonce = some ⟨data, true⟩ ∧
        d.files.get? key = some ⟨data, true⟩) (retireTemporary env key)
      fun _ d ↦ d.files.get? key = some ⟨data, true⟩ := by
  unfold retireTemporary
  refine Returns.bind (returns_checkpoint _) fun _ ↦ Returns.bind
    (X := fun _ d ↦ d.tmp.get? env.nonce = some ⟨data, true⟩ ∧
      d.files.get? key = some ⟨data, true⟩)
    (returns_update fun d h ↦ ⟨h.1, ?_⟩) fun _ ↦ Returns.bind
    (X := fun _ d ↦ d.files.get? key = some ⟨data, true⟩)
    (returns_call fun d h ↦ ⟨(), { d with tmp := d.tmp.remove env.nonce }, ?_, h.2⟩) fun _ ↦
    returns_update fun d h ↦ h
  · exact (Directory.get?_syncWhere _ _ _).trans h.2
  · rw [h.1]

private theorem returns_clearInventoryWithdrawal {data : Bytes} :
    Returns (fun d ↦ d.files.get? key = some ⟨data, true⟩) (clearInventoryWithdrawal key)
      fun _ d ↦ d.files.get? key = some ⟨data, true⟩ ∧ d.markers.get? key = none := by
  unfold clearInventoryWithdrawal
  refine Returns.bind (X := fun present d ↦ d.files.get? key = some ⟨data, true⟩ ∧
    (present = false → d.markers.get? key = none)) ?_ fun present ↦ ?_
  · unfold inventoryIsWithdrawn look
    refine returns_call fun d h ↦ ⟨(d.markers.get? key).isSome, d, rfl, h, fun hnone ↦ ?_⟩
    rwa [Option.isSome_eq_false_iff, Option.isNone_iff_eq_none] at hnone
  · split
    · refine Returns.bind (X := fun _ d ↦ d.files.get? key = some ⟨data, true⟩ ∧
        d.markers.get? key = none) (returns_update fun d h ↦ ⟨h.1, ?_⟩) fun _ ↦
        returns_update fun d h ↦ h
      exact (Directory.get?_remove _ _ _).trans (if_pos rfl)
    · next hno => exact returns_pure fun d h ↦ ⟨h.1, h.2 (Bool.not_eq_true _ ▸ hno)⟩

private theorem returns_publishTemporary {write : DiskProgram Unit} {data : Bytes}
    (hwrite : Returns (Blank env key) write fun _ ↦ Staged env key data false) :
    Returns (Blank env key) (publishTemporary env key write)
      fun _ d ↦ d.files.get? key = some ⟨data, true⟩ ∧ d.markers.get? key = none := by
  unfold publishTemporary
  exact Returns.bind ((returns_writeAndLink hwrite).onError _) fun _ ↦
    Returns.bind (returns_retireTemporary.onError _) fun _ ↦
    returns_clearInventoryWithdrawal.onError _

private theorem returns_reopenPublished {data : Bytes} {desc : TokenFileStore.FileDescriptor}
    (hopen : store.openData key data = .ok desc) :
    Returns (fun d ↦ d.files.get? key = some ⟨data, true⟩ ∧ d.markers.get? key = none)
      (reopenPublished store key) fun r d ↦ r = desc ∧ d.files.get? key = some ⟨data, true⟩ := by
  have hgate : Returns (fun d ↦ d.files.get? key = some ⟨data, true⟩ ∧ d.markers.get? key = none)
      (withdrawalGate key false)
      fun withdrawn d ↦ withdrawn = false ∧ d.files.get? key = some ⟨data, true⟩ := by
    change Returns _ (inventoryIsWithdrawn key) _
    unfold inventoryIsWithdrawn look
    refine returns_call fun d h ↦ ⟨(d.markers.get? key).isSome, d, rfl, ?_, h.1⟩
    rw [h.2]
    rfl
  unfold reopenPublished openPath
  refine Returns.bind returns_closeFile fun _ ↦ Returns.bind
    (X := fun r d ↦ r.1 = desc ∧ d.files.get? key = some ⟨data, true⟩)
    (Returns.bind hgate fun withdrawn ↦ ?_) fun r ↦
    Returns.bind returns_closeFile fun _ ↦ returns_pure fun d h ↦ h
  split
  · next htrue =>
    intro d h
    rw [h.1] at htrue
    cases htrue
  · refine returns_call fun d h ↦ ⟨(desc, data.drop desc.payloadOffset), d, ?_, rfl, h.2⟩
    dsimp only
    rw [h.2]
    dsimp only
    rw [hopen]
    rfl

private theorem returns_cleanupTemporaryFile {P : Disk → Prop} (hP : TmpFree P) (nonce : Nat) :
    Returns P (cleanupTemporaryFile nonce) fun _ ↦ P := by
  unfold cleanupTemporaryFile
  refine Returns.bind (X := fun _ ↦ P) (returns_attempt fun d h ↦ ?_) fun _ ↦
    Returns.bind (X := fun _ ↦ P) (returns_attempt fun d h ↦ ?_) fun _ ↦ returns_pure fun _ h ↦ h
  · cases htmp : d.tmp.get? nonce with
    | none =>
      refine ⟨d, .inr ⟨.fileNotFound, ?_, h⟩⟩
      unfold unlinkTemporary call
      dsimp only
      rw [htmp]
      rfl
    | some f =>
      refine ⟨{ d with tmp := d.tmp.remove nonce }, .inl ⟨?_, hP d _ h⟩⟩
      unfold unlinkTemporary call
      dsimp only
      rw [htmp]
      rfl
  · exact ⟨{ d with tmp := d.tmp.sync }, .inl ⟨rfl, hP d _ h⟩⟩

/-- A `ManifestError`, and no file for the key. -/
def Unpublished (key : Digest) (e : PyError) (d : Disk) : Prop :=
  (∃ message, e = .manifestError message) ∧ d.files.get? key = none

private theorem refuses_publishTemporary {write : DiskProgram Unit}
    (hwrite : Refuses (Blank env key) write (Unpublished key)) :
    Refuses (Blank env key) (publishTemporary env key write) (Unpublished key) := by
  unfold publishTemporary
  refine Refuses.bind (Refuses.onError ?_ fun e ↦ ?_) _
  · unfold writeAndLink prepareTemporary
    exact (hwrite.bind _).bind _
  · exact Returns.bind returns_closeFile fun _ ↦
      returns_cleanupTemporaryFile (fun _ _ h ↦ h) env.nonce

end

/-! ### What is published -/

/-- Full pieces, and a remainder that is not empty, for this many bytes. -/
def ExactPieces (slotBytes total : Nat) (pieces : List Bytes) : Prop :=
  ∃ count remainder, 0 < remainder ∧ remainder ≤ slotBytes ∧
    count * slotBytes + remainder = total ∧
    pieces.map List.length = List.replicate count slotBytes ++ [remainder]

private theorem exactPieces_iff {slotBytes total : Nat} (hslot : 0 < slotBytes) (htotal : 0 < total)
    (pieces : List Bytes) :
    ExactPieces slotBytes total pieces ↔
      pieces.map List.length = pieceLengths slotBytes total := by
  constructor
  · rintro ⟨count, remainder, hpos, hle, rfl, hlengths⟩
    have hdiv : (count * slotBytes + remainder - 1) / slotBytes = count := by
      rw [Nat.add_sub_assoc hpos, Nat.add_comm, Nat.add_mul_div_right _ _ hslot,
        Nat.div_eq_of_lt (by omega), Nat.zero_add]
    unfold pieceLengths
    rw [hlengths, hdiv, Nat.add_sub_cancel_left]
  · intro h
    obtain ⟨hpos, hle⟩ := remainder_bounds hslot htotal
    exact ⟨_, _, hpos, hle, by omega, h⟩

/-- A root on which a key may be published: its path and the name of the temporary are free. -/
structure Free (env : PublishEnv) (key : Digest) (d : Disk) : Prop where
  path : d.files.get? key = none
  temporary : d.tmp.get? env.nonce = none

section

variable {store : TokenFileStore} {env : PublishEnv} {key : Digest} {header : TokenHeader}

/-- A publication on a free root is what is done with its empty temporary. -/
theorem publishUnfenced_of_free {p : HeaderPayload} {encoded : Bytes}
    (hencode : store.encodeHeader p = .ok encoded) (write : Bytes → DiskProgram Unit) {d : Disk}
    (h : Free env key d) :
    ∃ d', Blank env key d' ∧ publishUnfenced store env key p write ⟨[], d⟩ =
      publishTemporary env key (write encoded) ⟨[], d'⟩ := by
  refine ⟨{ d with tmp := d.tmp.put env.nonce ⟨[], false⟩ },
    ⟨(Directory.get?_put _ _ _ _).trans (if_pos rfl), h.path⟩, ?_⟩
  have hok : (ofExcept (.ok encoded) : DiskProgram Bytes) ⟨[], d⟩ = (.returned encoded, ⟨[], d⟩) :=
    rfl
  have hthere : pathExists key ⟨[], d⟩ = (.returned false, ⟨[], d⟩) := by
    unfold pathExists look Program.call
    dsimp only
    rw [h.path]
    rfl
  have hcreate : createTemporary env.nonce ⟨[], d⟩ =
      (.returned (), ⟨[], { d with tmp := d.tmp.put env.nonce ⟨[], false⟩ }⟩) := by
    unfold createTemporary Program.call
    dsimp only
    rw [h.temporary]
    rfl
  unfold publishUnfenced
  rw [hencode, bind_of_returned hok, bind_of_returned hthere]
  exact bind_of_returned hcreate

private theorem byteLength_pos {p : HeaderPayload}
    (hheader : store.headerPayload key header (.ofNat 0) none = .ok p) : 0 < p.byteLength := by
  obtain ⟨hsegments, -, -, -, hbytes, -⟩ := TokenFileStore.headerPayload_ok hheader
  rw [hbytes]
  exact Nat.pos_of_ne_zero (TokenFileStore.transferBlocks_bounds hsegments).1

private theorem exactPieces_iff_remainingAfter {p : HeaderPayload}
    (hheader : store.headerPayload key header (.ofNat 0) none = .ok p) (pieces : List Bytes) :
    ExactPieces store.slotBytes p.byteLength pieces ↔
      remainingAfter store.slotBytes p.byteLength pieces = some 0 := by
  have hpos := byteLength_pos hheader
  rw [exactPieces_iff store.slotBytes_pos hpos, remainingAfter_iff store.slotBytes_pos hpos]

variable (henv : env.Progress) {p : HeaderPayload} {encoded : Bytes}
  (hheader : store.headerPayload key header (.ofNat 0) none = .ok p)
  (hencode : store.encodeHeader p = .ok encoded) {d : Disk} (hfree : Free env key d)
  {pieces : List Bytes}

include hheader in
private theorem fileOf_filledHeader {final : Bytes}
    (hall : remainingAfter store.slotBytes p.byteLength pieces = some 0)
    (hfinal : store.encodeHeader (filledHeader p pieces) = .ok final) :
    FileOf store key header (.stream (pieces.map .ok)) (final ++ pieces.flatten) := by
  obtain ⟨hlength, hpieces⟩ := pieces_of_remainingAfter hall
  refine ⟨pieces.flatten, filledHeader p pieces, final, congrArg _ hpieces, ?_, hfinal, rfl⟩
  unfold filledHeader
  rw [commitHeader_of_stream hheader hlength, ← hpieces]

include hheader hencode in
private theorem exists_fileOf (hexact : ExactPieces store.slotBytes p.byteLength pieces) :
    ∃ data, FileOf store key header (.stream (pieces.map .ok)) data := by
  have hall := (exactPieces_iff_remainingAfter hheader pieces).mp hexact
  obtain ⟨-, -, -, -, -, hcount, -⟩ := TokenFileStore.headerPayload_ok hheader
  obtain ⟨final, hfinal, -⟩ := encodeHeader_filledHeader hcount hencode hall
  exact ⟨_, fileOf_filledHeader hheader hall hfinal⟩

include henv hheader hencode hfree

/-- A stream for a free path whose pieces have the lengths of the transfer blocks is published. -/
theorem commit_stream_published (hexact : ExactPieces store.slotBytes p.byteLength pieces) :
    ∃ desc data d', commit store env key header (.stream (pieces.map .ok)) ⟨[], d⟩ =
        (.returned desc, ⟨[], d'⟩) ∧ d'.files.get? key = some ⟨data, true⟩ ∧
      FileOf store key header (.stream (pieces.map .ok)) data ∧
      store.openData key data = .ok desc := by
  have hall := (exactPieces_iff_remainingAfter hheader pieces).mp hexact
  obtain ⟨-, -, -, -, -, hcount, -⟩ := TokenFileStore.headerPayload_ok hheader
  obtain ⟨final, hfinal, hlengths⟩ := encodeHeader_filledHeader hcount hencode hall
  have hfile := fileOf_filledHeader hheader hall hfinal
  obtain ⟨desc, hopen, -⟩ := hfile.complete
  have hwrite : Returns (Blank env key) (writeStream store env p (pieces.map .ok) encoded)
      fun _ ↦ Staged env key (final ++ pieces.flatten) false := by
    intro d' hblank
    have hrun := writeStream_run henv hencode (fun _ ↦ ⟨hfinal, hlengths⟩) hblank.1
    rw [if_pos hall] at hrun
    exact ⟨(), _, hrun, get?_withData hblank.1 _, hblank.2⟩
  obtain ⟨d', hblank, hpublish⟩ := publishUnfenced_of_free hencode
    (writeStream store env p (pieces.map .ok)) hfree
  obtain ⟨⟨⟩, d₁, htemporary, hd₁⟩ := returns_publishTemporary hwrite d' hblank
  obtain ⟨r, d₂, hreopen, rfl, hd₂⟩ := returns_reopenPublished hopen d₁ hd₁
  have hok : (ofExcept (.ok p) : DiskProgram HeaderPayload) ⟨[], d⟩ = (.returned p, ⟨[], d⟩) := rfl
  refine ⟨r, _, d₂, ?_, hd₂, hfile, hopen⟩
  have hunfenced : commitUnfenced store env key header (.stream (pieces.map .ok)) ⟨[], d⟩ =
      (.returned (), ⟨[], d₁⟩) := by
    change commitStreamUnfenced store env key header _ ⟨[], d⟩ = _
    unfold commitStreamUnfenced
    rw [hheader, bind_of_returned hok, hpublish, htemporary]
  rw [commit_eq, bind_of_returned hunfenced, hreopen]

/-- Other pieces make it raise a `ManifestError`, and its path stays free. -/
theorem commit_stream_refused (hexact : ¬ ExactPieces store.slotBytes p.byteLength pieces) :
    ∃ message d', commit store env key header (.stream (pieces.map .ok)) ⟨[], d⟩ =
      (.raised (.manifestError message), ⟨[], d'⟩) ∧ d'.files.get? key = none := by
  rw [exactPieces_iff_remainingAfter hheader] at hexact
  have hwrite : Refuses (Blank env key) (writeStream store env p (pieces.map .ok) encoded)
      (Unpublished key) := by
    intro d' hblank
    have hrun := @writeStream_run store env henv p encoded [] pieces hencode
      (fun h ↦ absurd h hexact) d' hblank.1
    rw [if_neg hexact] at hrun
    obtain ⟨message, data, hrun⟩ := hrun
    exact ⟨_, _, hrun, ⟨message, rfl⟩, hblank.2⟩
  obtain ⟨d', hblank, hpublish⟩ := publishUnfenced_of_free hencode
    (writeStream store env p (pieces.map .ok)) hfree
  obtain ⟨e, d₁, htemporary, ⟨message, rfl⟩, hd₁⟩ := refuses_publishTemporary hwrite d' hblank
  have hok : (ofExcept (.ok p) : DiskProgram HeaderPayload) ⟨[], d⟩ = (.returned p, ⟨[], d⟩) := rfl
  refine ⟨message, d₁, ?_, hd₁⟩
  rw [commit_eq]
  refine bind_of_raised ?_ _
  change commitStreamUnfenced store env key header _ ⟨[], d⟩ = _
  unfold commitStreamUnfenced
  rw [hheader, bind_of_returned hok, hpublish, htemporary]

end

/-! ### Lengths of headers never differ -/

/-- Another error than that of a final header of another length. -/
def KeepsLength (e : PyError) : Prop := e ≠ .manifestError "streamed token header changed length"

section

variable {store : TokenFileStore} {env : PublishEnv} {key : Digest} {header : TokenHeader}

private theorem keepsLength_osError (message : String) : KeepsLength (.osError message) :=
  fun h ↦ (by cases h)

private theorem keepsLength_manifestError {message : String}
    (h : message ≠ "streamed token header changed length") :
    KeepsLength (.manifestError message) := fun he ↦ h (PyError.manifestError.inj he)

private theorem keepsLength_headerPayload (digest : Digest) (blocks : Option (List Digest)) :
    OnlyRaises KeepsLength (store.headerPayload key header digest blocks) := by
  have hgeometry : ∀ e, GeometryError e → KeepsLength e := by
    intro e he
    cases he with
    | layout => exact fun h ↦ (by cases h)
    | overflow => exact fun h ↦ (by cases h)
    | slice => exact keepsLength_manifestError (by decide)
  unfold TokenFileStore.headerPayload
  refine OnlyRaises.bind ?_ fun segments _ ↦ ?_
  · unfold Store.headerPayload
    split
    · exact onlyRaises_error (keepsLength_manifestError (by decide))
    split
    · exact onlyRaises_error (keepsLength_manifestError (by decide))
    split
    · exact onlyRaises_error (keepsLength_manifestError (by decide))
    split
    · exact onlyRaises_error (keepsLength_manifestError (by decide))
    · refine ((segments_raises _ _ _).mono hgeometry).bind fun segments _ ↦ ?_
      dsimp only
      split
      · exact onlyRaises_error (keepsLength_manifestError (by decide))
      · exact onlyRaises_ok _
  · dsimp only
    split
    · exact onlyRaises_error (keepsLength_manifestError (by decide))
    · exact onlyRaises_ok _

private theorem keepsLength_encodeHeader (p : HeaderPayload) :
    OnlyRaises KeepsLength (store.encodeHeader p) := by
  unfold TokenFileStore.encodeHeader
  dsimp only
  split
  · exact onlyRaises_error (keepsLength_manifestError (by decide))
  · exact onlyRaises_ok _

private theorem keepsLength_openData (data : Bytes) : OnlyRaises KeepsLength
    (store.openData key data) := by
  unfold TokenFileStore.openData
  refine OnlyRaises.bind ?_ fun r _ ↦ OnlyRaises.bind ?_ fun p _ ↦ ?_
  · unfold TokenFileStore.readHeader
    split
    · exact onlyRaises_error (keepsLength_manifestError (by decide))
    split
    · exact onlyRaises_error (keepsLength_manifestError (by decide))
    dsimp only
    split
    · exact onlyRaises_error (keepsLength_manifestError (by decide))
    split
    · exact onlyRaises_error (keepsLength_manifestError (by decide))
    split
    · exact onlyRaises_error (keepsLength_manifestError (by decide))
    · exact onlyRaises_ok _
  · unfold TokenFileStore.decodeHeader
    split
    · exact onlyRaises_error (keepsLength_manifestError (by decide))
    split
    · exact onlyRaises_error (keepsLength_manifestError (by decide))
    split
    · exact onlyRaises_error (keepsLength_manifestError (by decide))
    split
    · exact onlyRaises_error (keepsLength_manifestError (by decide))
    · exact onlyRaises_ok _
  · split
    · exact onlyRaises_error (keepsLength_manifestError (by decide))
    split
    · exact onlyRaises_error (keepsLength_manifestError (by decide))
    · exact onlyRaises_ok _

/-- Whatever fails, a program raises other errors than that of a changed length. -/
abbrev LengthKept {α : Type} (x : DiskProgram α) : Prop := Ensures (fun _ ↦ True) KeepsLength x

private theorem lengthKept_checkpoint (point : String) : LengthKept (checkpoint point) :=
  ensures_update fun h ↦ (by cases h)

private theorem lengthKept_writeVector (nonce : Nat) (counts : List Nat) (offset : Nat)
    (data : Bytes) :
    LengthKept (writeVector nonce counts offset data) := by
  induction counts generalizing offset data with
  | nil =>
    unfold writeVector
    split
    · exact ensures_pure trivial
    · exact ensures_update (keepsLength_osError _)
  | cons count counts ih =>
    unfold writeVector
    split
    · exact ensures_pure trivial
    split
    · exact ensures_raise (keepsLength_osError _)
    · exact (ensures_update (keepsLength_osError _)).bind fun _ _ ↦ ih _ _

/-- What the loop returns are the pieces with what they leave. -/
theorem ensures_writePieces (pieces : List Bytes) (index offset remaining : Nat)
    (written : List Bytes) :
    Ensures (fun r ↦ r.1 = written ++ pieces ∧
        remainingAfter store.slotBytes remaining pieces = some r.2) KeepsLength
      (writePieces store env (pieces.map .ok) index offset remaining written) := by
  induction pieces generalizing index offset remaining written with
  | nil => exact ensures_pure ⟨(List.append_nil _).symm, rfl⟩
  | cons piece pieces ih =>
    rw [List.map_cons, writePieces, remainingAfter]
    split
    · exact ensures_raise (keepsLength_manifestError (by decide))
    · refine (lengthKept_writeVector _ _ _ _).bind fun _ _ ↦ (lengthKept_checkpoint _).bind fun _ _ ↦ ?_
      have hnext := ih (index + 1) (offset + piece.length)
        (remaining - min remaining store.slotBytes) (written ++ [piece])
      rwa [List.append_assoc] at hnext

private theorem lengthKept_writeStream {p : HeaderPayload} {encoded : Bytes} (pieces : List Bytes)
    (hheader : store.headerPayload key header (.ofNat 0) none = .ok p)
    (hencode : store.encodeHeader p = .ok encoded) :
    LengthKept (writeStream store env p (pieces.map .ok) encoded) := by
  obtain ⟨-, -, -, -, -, hcount, -⟩ := TokenFileStore.headerPayload_ok hheader
  unfold writeStream
  refine (lengthKept_writeVector _ _ _ _).bind fun _ _ ↦ (ensures_writePieces _ _ _ _ _).bind ?_
  rintro ⟨written, remaining⟩ ⟨hwritten, hremaining⟩
  rw [List.nil_append] at hwritten
  dsimp only at hwritten hremaining ⊢
  subst hwritten
  split
  · exact ensures_raise (keepsLength_manifestError (by decide))
  · next hzero =>
    rw [not_not.mp hzero] at hremaining
    obtain ⟨final, hfinal, hlengths⟩ := encodeHeader_filledHeader hcount hencode hremaining
    refine Ensures.bind (R := fun f ↦ f.length = encoded.length)
      (ensures_ofExcept (fun f hf ↦ ?_) (keepsLength_encodeHeader _)) fun f hf ↦ ?_
    · unfold filledHeader at hfinal
      rw [hfinal] at hf
      rw [← Except.ok.inj hf]
      exact hlengths
    · rw [if_neg (not_not.mpr hf)]
      exact lengthKept_writeVector _ _ _ _

private theorem lengthKept_cleanupTemporaryFile (nonce : Nat) : LengthKept
    (cleanupTemporaryFile nonce) := by
  unfold cleanupTemporaryFile
  exact (ensures_attempt _).bind fun _ _ ↦ (ensures_attempt _).bind fun _ _ ↦ ensures_pure trivial

private theorem lengthKept_withdrawPublished (key : Digest) :
    LengthKept (withdrawPublished key) := by
  unfold withdrawPublished
  exact (ensures_attempt _).bind fun _ _ ↦ ensures_pure trivial

private theorem lengthKept_closeFile : LengthKept closeFile := ensures_update
    (keepsLength_osError _)

private theorem lengthKept_inventoryIsWithdrawn (key : Digest) : LengthKept
    (inventoryIsWithdrawn key) :=
  ensures_call (keepsLength_osError _) (fun _ _ _ ↦ trivial) fun _ _ h ↦ (by cases h)

private theorem lengthKept_publishTemporary {write : DiskProgram Unit} (hwrite : LengthKept write) :
    LengthKept (publishTemporary env key write) := by
  have hupdate : ∀ {message f}, LengthKept (update (.osError message) f : DiskProgram Unit) :=
    ensures_update (keepsLength_osError _)
  unfold publishTemporary
  refine Ensures.bind (R := fun _ ↦ True) (Ensures.onError (T := fun _ ↦ True) ?_ ?_) fun _ _ ↦
    Ensures.bind (R := fun _ ↦ True) (Ensures.onError (T := fun _ ↦ True) ?_ ?_) fun _ _ ↦
    Ensures.onError (T := fun _ ↦ True) ?_ ?_
  · unfold writeAndLink prepareTemporary ensureShardDirectory
    refine (hwrite.bind fun _ _ ↦ hupdate.bind fun _ _ ↦ (lengthKept_checkpoint _).bind fun _ _ ↦
      hupdate.bind fun _ _ ↦ hupdate).bind fun _ _ ↦ ensures_call (keepsLength_osError _)
        (fun _ _ _ ↦ trivial) fun d e he ↦ ?_
    split at he
    · cases he
    · cases he
      exact keepsLength_osError _
    · cases he
      exact fun h ↦ (by cases h)
  · exact lengthKept_closeFile.bind fun _ _ ↦ lengthKept_cleanupTemporaryFile _
  · unfold retireTemporary
    refine (lengthKept_checkpoint _).bind fun _ _ ↦ hupdate.bind fun _ _ ↦
      Ensures.bind (R := fun _ ↦ True)
      (ensures_call (keepsLength_osError _) (fun _ _ _ ↦ trivial) fun d e he ↦ ?_)
      fun _ _ ↦ hupdate
    split at he
    · cases he
      exact fun h ↦ (by cases h)
    · cases he
  · exact (lengthKept_withdrawPublished _).bind fun _ _ ↦ lengthKept_closeFile.bind fun _ _ ↦
      lengthKept_cleanupTemporaryFile _
  · unfold clearInventoryWithdrawal
    refine (lengthKept_inventoryIsWithdrawn _).bind fun present _ ↦ ?_
    split
    · exact hupdate.bind fun _ _ ↦ hupdate
    · exact ensures_pure trivial
  · exact (lengthKept_withdrawPublished _).bind fun _ _ ↦ lengthKept_closeFile

private theorem lengthKept_reopenPublished : LengthKept (reopenPublished store key) := by
  unfold reopenPublished openPath
  refine lengthKept_closeFile.bind fun _ _ ↦ Ensures.bind (R := fun _ ↦ True) ?_ fun r _ ↦
    lengthKept_closeFile.bind fun _ _ ↦ ensures_pure trivial
  refine Ensures.bind (R := fun _ ↦ True) (lengthKept_inventoryIsWithdrawn key) fun withdrawn _ ↦ ?_
  split
  · exact ensures_raise (keepsLength_manifestError (by decide))
  · refine ensures_call (keepsLength_osError _) (fun _ _ _ ↦ trivial) fun d e he ↦ ?_
    dsimp only at he
    split at he
    · cases he
      exact fun h ↦ (by cases h)
    · next f _ =>
      cases hopen : store.openData key f.data with
      | error e' =>
        rw [hopen] at he
        cases he
        exact keepsLength_openData _ _ hopen
      | ok desc =>
        rw [hopen] at he
        cases he

/-- No stream of bytes ever raises that its header changed its length. -/
theorem lengthKept_commit_stream (pieces : List Bytes) :
    LengthKept (commit store env key header (.stream (pieces.map .ok))) := by
  rw [commit_eq]
  refine Ensures.bind (R := fun _ ↦ True) ?_ fun _ _ ↦ lengthKept_reopenPublished
  change LengthKept (commitStreamUnfenced store env key header _)
  unfold commitStreamUnfenced
  refine Ensures.bind (ensures_ofExcept (fun _ h ↦ h) (keepsLength_headerPayload _ _))
    fun p hheader ↦ ?_
  unfold publishUnfenced
  refine Ensures.bind (ensures_ofExcept (fun _ h ↦ h) (keepsLength_encodeHeader _))
    fun encoded hencode ↦ ?_
  refine Ensures.bind (R := fun _ ↦ True) (ensures_call (keepsLength_osError _)
    (fun _ _ _ ↦ trivial) fun _ _ h ↦ (by cases h)) fun there _ ↦ ?_
  split
  · exact ensures_raise (keepsLength_manifestError (by decide))
  · refine Ensures.bind (R := fun _ ↦ True) (ensures_call (keepsLength_osError _)
      (fun _ _ _ ↦ trivial) fun d e he ↦ ?_) fun _ _ ↦
      lengthKept_publishTemporary (lengthKept_writeStream pieces hheader hencode)
    split at he
    · cases he
      exact keepsLength_osError _
    · cases he

end

/-! ### Streamed and buffered publications agree -/

/-- A stream carries one payload. -/
theorem carries_stream_unique {slotBytes : Nat} (hslot : 0 < slotBytes) {payload payload' : Bytes}
    {pieces : List (Except PyError Bytes)}
    (h : (CommitInput.stream pieces).Carries slotBytes payload)
    (h' : (CommitInput.stream pieces).Carries slotBytes payload') : payload = payload' := by
  have hmap : (TokenFileStore.pieces slotBytes payload).map (Except.ok : Bytes → Except PyError _) =
      (TokenFileStore.pieces slotBytes payload').map .ok := h.symm.trans h'
  have hpieces := List.map_injective_iff.mpr (fun _ _ heq ↦ Except.ok.inj heq) hmap
  rw [← flatten_pieces hslot payload, hpieces, flatten_pieces hslot payload']

/-- A stream has one file. -/
theorem fileOf_stream_unique {store : TokenFileStore} {key : Digest} {header : TokenHeader}
    {pieces : List (Except PyError Bytes)} {data data' : Bytes}
    (h : FileOf store key header (.stream pieces) data)
    (h' : FileOf store key header (.stream pieces) data') : data = data' := by
  obtain ⟨payload, p, encoded, hcarries, hheader, hencode, rfl⟩ := h
  obtain ⟨payload', p', encoded', hcarries', hheader', hencode', rfl⟩ := h'
  have hpayload := carries_stream_unique store.slotBytes_pos hcarries hcarries'
  subst hpayload
  rw [hheader] at hheader'
  cases hheader'
  rw [hencode] at hencode'
  cases hencode'
  rfl

/-- Undisturbed, a payload of the geometry's length is committed alike whole and in its transfer
blocks: the outcome, with its descriptor or error, and the root are equal. A stream whose header
fits publishes on a free path exactly when its pieces have the lengths of the transfer blocks, one
file and one descriptor whatever else is on the root, and otherwise it raises a `ManifestError`.
Whatever fails, no stream raises that its header changed its length. -/
theorem stream_publication (store : TokenFileStore) (key : Digest) (header : TokenHeader) :
    (∀ env : PublishEnv, env.Progress → ∀ payload : Bytes,
      (∀ segments, Store.headerPayload store.config key header = .ok segments →
        payload.length = (segments.map PageSlice.byteLength).sum) → ∀ d : Disk,
      commit store env key header
          (.stream ((TokenFileStore.pieces store.slotBytes payload).map .ok)) ⟨[], d⟩ =
        commit store env key header (.chunk payload) ⟨[], d⟩) ∧
    (∀ p encoded, store.headerPayload key header (.ofNat 0) none = .ok p →
      store.encodeHeader p = .ok encoded → ∀ pieces : List Bytes,
      (ExactPieces store.slotBytes p.byteLength pieces →
        ∃ desc data, FileOf store key header (.stream (pieces.map .ok)) data ∧
          ∀ env d, env.Progress → Free env key d →
            ∃ d', commit store env key header (.stream (pieces.map .ok)) ⟨[], d⟩ =
                (.returned desc, ⟨[], d'⟩) ∧ d'.files.get? key = some ⟨data, true⟩) ∧
      (¬ ExactPieces store.slotBytes p.byteLength pieces →
        ∀ env d, env.Progress → Free env key d →
          ∃ message d', commit store env key header (.stream (pieces.map .ok)) ⟨[], d⟩ =
              (.raised (.manifestError message), ⟨[], d'⟩) ∧ d'.files.get? key = none)) ∧
    ∀ env (pieces : List Bytes) (m : Machine Disk),
      (commit store env key header (.stream (pieces.map .ok)) m).1 ≠
        .raised (.manifestError "streamed token header changed length") := by
  refine ⟨fun env henv payload hlength d ↦ commit_stream_eq_chunk henv hlength d,
    fun p encoded hheader hencode pieces ↦ ⟨fun hexact ↦ ?_, fun hexact env d henv hfree ↦
      commit_stream_refused henv hheader hencode hfree hexact⟩, fun env pieces m hraised ↦ ?_⟩
  · obtain ⟨data, hfile⟩ := exists_fileOf hheader hencode hexact
    obtain ⟨desc, hopen, -⟩ := hfile.complete
    refine ⟨desc, data, hfile, fun env d henv hfree ↦ ?_⟩
    obtain ⟨desc', data', d', hrun, hd', hfile', hopen'⟩ :=
      commit_stream_published henv hheader hencode hfree hexact
    cases fileOf_stream_unique hfile hfile'
    rw [hopen] at hopen'
    cases hopen'
    exact ⟨d', hrun, hd'⟩
  · exact (lengthKept_commit_stream pieces m).2 _ hraised rfl

end SpoolCache.Store
