import SpoolCache.Base.Bytes
import SpoolCache.Core.Values

/-!
# Vectored writes and exact reads

`token_files.py:71–104`. The operating system may write a part of what it is offered, ending
anywhere in the vector, and may read less than asked for. The write loop pops the views that are
written and cuts the first one that is not; the read loop moves a position through its view. Each
round moves at least one byte, so both loops end.
-/

namespace SpoolCache.Store.FileIo

open SpoolCache.Base

/-! ### Writing -/

/-- What `os.writev` may do with the bytes it is offered. -/
inductive WriteResult (offered : Nat) where
  | wrote (count : Nat) (pos : 1 ≤ count) (le : count ≤ offered)
  | nonPositive (count : Int) (le : count ≤ 0)
  | raised (e : PyError)

/-- The error the loop raises for a result, none for a write that moved bytes. -/
def WriteResult.failure {offered : Nat} : WriteResult offered → Option PyError
  | .wrote _ _ _ => none
  | .nonPositive _ _ => some (.osError "short token file write")
  | .raised e => some e

/-- The views after a write, `token_files.py:79–85`. -/
def dropWritten : Nat → List Bytes → List Bytes
  | _, [] => []
  | count, view :: views =>
    if view.length ≤ count then dropWritten (count - view.length) views
    else if count = 0 then view :: views
    else view.drop count :: views

private theorem flatten_dropWritten (count : Nat) (views : List Bytes) :
    (dropWritten count views).flatten = views.flatten.drop count := by
  induction views generalizing count with
  | nil => rw [dropWritten, List.flatten_nil, List.drop_nil]
  | cons view views ih =>
    unfold dropWritten
    rw [List.flatten_cons, List.drop_append]
    split
    · next hle => rw [ih, List.drop_of_length_le hle, List.nil_append]
    split
    · next hzero =>
      rw [hzero, Nat.zero_sub, List.drop_zero, List.drop_zero, List.flatten_cons]
    · next hlt _ =>
      rw [List.flatten_cons, Nat.sub_eq_zero_of_le (by omega), List.drop_zero]

/-- The first view that stays has a byte left. -/
theorem flatten_dropWritten_ne_nil {count : Nat} {views : List Bytes}
    (h : dropWritten count views ≠ []) : (dropWritten count views).flatten ≠ [] := by
  induction views generalizing count with
  | nil => exact absurd rfl h
  | cons view views ih =>
    unfold dropWritten at h ⊢
    split
    · next hle =>
      rw [if_pos hle] at h
      exact ih h
    · next hlt =>
      have hleft : (view.drop count ++ views.flatten).length ≠ 0 := by
        rw [List.length_append, List.length_drop]
        omega
      split
      · next hzero =>
        rw [hzero, List.drop_zero] at hleft
        exact fun hnil ↦ hleft (congrArg List.length hnil)
      · exact fun hnil ↦ hleft (congrArg List.length hnil)

private theorem length_dropWritten_le (count : Nat) (views : List Bytes) :
    (dropWritten count views).length ≤ views.length := by
  induction views generalizing count with
  | nil => exact Nat.le_refl _
  | cons view views ih =>
    unfold dropWritten
    split
    · exact Nat.le_succ_of_le (ih _)
    split
    · exact Nat.le_refl _
    · exact Nat.le_refl _

/-- A write leaves fewer bytes, or pops a view. -/
theorem dropWritten_lt {count : Nat} {views : List Bytes} (hpos : 1 ≤ count) (h : views ≠ []) :
    (dropWritten count views).flatten.length + (dropWritten count views).length <
      views.flatten.length + views.length := by
  rw [flatten_dropWritten, List.length_drop]
  cases views with
  | nil => exact absurd rfl h
  | cons view views =>
    unfold dropWritten
    have hle := length_dropWritten_le (count - view.length) views
    split
    · rw [List.length_cons]
      omega
    · next hlt =>
      rw [if_neg (by omega), List.flatten_cons, List.length_append, List.length_cons,
        List.length_cons]
      omega

/-- A file after a write loop, with the calls it took. -/
structure Written where
  file : Bytes
  calls : Nat
  result : Except PyError Unit

/-- `_write_vector`, `token_files.py:71–87`, from some call of `os.writev` on. -/
def writeVector (os : (call offered : Nat) → WriteResult offered) (call : Nat)
    (views : List Bytes) (file : Bytes) : Written :=
  if _hviews : views = [] then ⟨file, call, .ok ()⟩
  else
    match os call views.flatten.length with
    | .raised e => ⟨file, call + 1, .error e⟩
    | .nonPositive _ _ => ⟨file, call + 1, .error (.osError "short token file write")⟩
    | .wrote count _ _ =>
      writeVector os (call + 1) (dropWritten count views) (file ++ views.flatten.take count)
termination_by views.flatten.length + views.length
decreasing_by exact dropWritten_lt (by assumption) (by assumption)

/-- The loop writes a prefix of what is left, all of it unless it raises. It raises what its last
call gave, which was offered the rest. -/
theorem writeVector_spec (os : (call offered : Nat) → WriteResult offered) (call : Nat)
    (views : List Bytes) (file : Bytes) :
    ∃ written, written <+: views.flatten ∧
      (writeVector os call views file).file = file ++ written ∧
      ((writeVector os call views file).result = .ok () → written = views.flatten) ∧
      (∀ e, (writeVector os call views file).result = .error e →
        ∃ last, (writeVector os call views file).calls = last + 1 ∧
          (os last (views.flatten.length - written.length)).failure = some e ∧
          ((views.flatten = [] → views = []) → written.length < views.flatten.length)) ∧
      (writeVector os call views file).calls ≤ call + (views.flatten.length + views.length) := by
  have hfirst : ∀ {views : List Bytes}, views ≠ [] → (views.flatten = [] → views = []) →
      ([] : Bytes).length < views.flatten.length := by
    intro views hviews hbytes
    exact List.length_pos_iff.mpr fun hnil ↦ hviews (hbytes hnil)
  fun_induction writeVector os call views file with
  | case1 call file =>
    exact ⟨[], List.prefix_refl _, (List.append_nil _).symm, fun _ ↦ rfl,
      fun e herror ↦ (by cases herror), by simp⟩
  | case2 call views file hviews e he =>
    have hlength := List.length_pos_iff.mpr hviews
    refine ⟨[], List.nil_prefix, (List.append_nil _).symm, fun h ↦ (by cases h), ?_,
      by dsimp only; omega⟩
    intro e' herror
    cases herror
    refine ⟨call, rfl, ?_, hfirst hviews⟩
    rw [List.length_nil, Nat.sub_zero, he]
    rfl
  | case3 call views file hviews count hle he =>
    have hlength := List.length_pos_iff.mpr hviews
    refine ⟨[], List.nil_prefix, (List.append_nil _).symm, fun h ↦ (by cases h), ?_,
      by dsimp only; omega⟩
    intro e' herror
    cases herror
    refine ⟨call, rfl, ?_, hfirst hviews⟩
    rw [List.length_nil, Nat.sub_zero, he]
    rfl
  | case4 call views file hviews count hpos hle he ih =>
    obtain ⟨written, hprefix, hfile, hall, herror, hcalls⟩ := ih
    have hbytes : (dropWritten count views).flatten = [] → dropWritten count views = [] :=
      fun hnil ↦ Classical.byContradiction fun hne ↦ flatten_dropWritten_ne_nil hne hnil
    rw [flatten_dropWritten] at hprefix hall herror
    have hdecrease := dropWritten_lt hpos hviews
    have htaken : (views.flatten.take count).length = count := List.length_take_of_le hle
    refine ⟨views.flatten.take count ++ written, ?_, ?_, ?_, ?_, by omega⟩
    · obtain ⟨rest, hrest⟩ := hprefix
      exact ⟨rest, by rw [List.append_assoc, hrest, List.take_append_drop]⟩
    · rw [hfile, List.append_assoc]
    · intro hok
      rw [hall hok, List.take_append_drop]
    · intro e hraised
      obtain ⟨last, hlast, hfailure, hleft⟩ := herror e hraised
      rw [List.length_drop] at hfailure hleft
      rw [List.length_append, htaken, ← Nat.sub_sub]
      refine ⟨last, hlast, hfailure, fun _ ↦ ?_⟩
      have hshort := hleft (by rwa [flatten_dropWritten] at hbytes)
      omega

/-- The loop returns when there are bytes to write and every call moves some. -/
theorem writeVector_ok {os : (call offered : Nat) → WriteResult offered} {call : Nat}
    {views : List Bytes} {file : Bytes} (hbytes : views.flatten = [] → views = [])
    (h : ∀ call offered, 0 < offered → (os call offered).failure = none) :
    (writeVector os call views file).result = .ok () := by
  obtain ⟨written, -, -, -, herror, -⟩ := writeVector_spec os call views file
  cases hresult : (writeVector os call views file).result with
  | ok u => rfl
  | error e =>
    obtain ⟨last, -, hfailure, hleft⟩ := herror e hresult
    rw [h last _ (Nat.sub_pos_of_lt (hleft hbytes))] at hfailure
    cases hfailure

/-! ### Reading -/

/-- What `os.readv` may do with room for some bytes and some bytes left in the file. -/
inductive ReadResult (room remaining : Nat) where
  | got (count : Nat) (pos : 1 ≤ count) (le : count ≤ room) (available : count ≤ remaining)
  | nonPositive (count : Int) (le : count ≤ 0)
  | raised (e : PyError)

/-- The error the loop raises for a result, none for a read that moved bytes. -/
def ReadResult.failure {room remaining : Nat} : ReadResult room remaining → Option PyError
  | .got _ _ _ _ => none
  | .nonPositive _ _ => some (.manifestError "truncated token file")
  | .raised e => some e

private theorem ReadResult.failure_eq_some {room remaining : Nat}
    {result : ReadResult room remaining} {e : PyError} (h : result.failure = some e) :
    e = .manifestError "truncated token file" ∨ result = .raised e := by
  cases result with
  | got count hpos hle havailable => cases h
  | nonPositive count hle => exact .inl (Option.some.inj h).symm
  | raised e' =>
    cases h
    exact .inr rfl

/-- `view[position : position + len(piece)] = piece`. -/
def overwrite (view : Bytes) (position : Nat) (piece : Bytes) : Bytes :=
  view.take position ++ piece ++ view.drop (position + piece.length)

private theorem length_overwrite {view piece : Bytes} {position : Nat}
    (h : position + piece.length ≤ view.length) :
    (overwrite view position piece).length = view.length := by
  unfold overwrite
  rw [List.length_append, List.length_append, List.length_take, List.length_drop]
  omega

/-- Two pieces in a row are one piece. -/
theorem overwrite_overwrite {view first second : Bytes} {position : Nat}
    (h : position + first.length ≤ view.length) :
    overwrite (overwrite view position first) (position + first.length) second =
      overwrite view position (first ++ second) := by
  have hhead : (view.take position ++ first).length = position + first.length := by
    rw [List.length_append, List.length_take]
    omega
  have hend : position + first.length + (position + first.length + second.length -
      (position + first.length)) = position + (first ++ second).length := by
    rw [List.length_append]
    omega
  unfold overwrite
  rw [List.take_left' hhead, ← hhead, List.drop_append, List.drop_of_length_le (by omega),
    List.nil_append, List.drop_drop, hhead, hend, List.append_assoc (view.take position)]

/-- A view after a read loop, with the calls it took. -/
structure Filled where
  view : Bytes
  calls : Nat
  result : Except PyError Unit

/-- `_read_into`, `token_files.py:90–97`, from some call of `os.readv` on, with the offset of the
descriptor. -/
def readInto (os : (call room remaining : Nat) → ReadResult room remaining) (data : Bytes)
    (call position offset : Nat) (view : Bytes) : Filled :=
  if _hroom : position < view.length then
    match os call (view.length - position) (data.length - offset) with
    | .raised e => ⟨view, call + 1, .error e⟩
    | .nonPositive _ _ => ⟨view, call + 1, .error (.manifestError "truncated token file")⟩
    | .got count _ _ _ =>
      readInto os data (call + 1) (position + count) (offset + count)
        (overwrite view position ((data.drop offset).take count))
  else ⟨view, call, .ok ()⟩
termination_by view.length - position
decreasing_by
  have hpiece : ((data.drop offset).take count).length = count := by
    rw [List.length_take, List.length_drop]
    omega
  rw [length_overwrite (by omega)]
  omega

/-- `_read_small`, `token_files.py:100–104`. -/
def readSmall (os : (call room remaining : Nat) → ReadResult room remaining) (data : Bytes)
    (offset size : Nat) : Except PyError Bytes :=
  let out := readInto os data 0 0 offset (List.replicate size 0)
  match out.result with
  | .error e => .error e
  | .ok () => .ok out.view

/-- The loop fills the view from its position with the bytes at the offset, to its end unless it
raises what its last call gave. -/
theorem readInto_spec (os : (call room remaining : Nat) → ReadResult room remaining)
    (data : Bytes) (call position offset : Nat) (view : Bytes) (h : position ≤ view.length) :
    ∃ n, n ≤ data.length - offset ∧ position + n ≤ view.length ∧
      (readInto os data call position offset view).view =
        overwrite view position ((data.drop offset).take n) ∧
      ((readInto os data call position offset view).result = .ok () → position + n = view.length) ∧
      (∀ e, (readInto os data call position offset view).result = .error e →
        position + n < view.length ∧
          ∃ last, (readInto os data call position offset view).calls = last + 1 ∧
            (os last (view.length - (position + n)) (data.length - (offset + n))).failure =
              some e) ∧
      (readInto os data call position offset view).calls ≤ call + (view.length - position) := by
  have hnothing : ∀ (view : Bytes) (position : Nat) (rest : Bytes),
      view = overwrite view position (rest.take 0) := by
    intro view position rest
    rw [overwrite, List.take_zero, List.append_nil, List.length_nil, Nat.add_zero,
      List.take_append_drop]
  fun_induction readInto os data call position offset view with
  | case1 call position offset view hroom e he =>
    refine ⟨0, Nat.zero_le _, h, hnothing _ _ _, fun hok ↦ (by cases hok), ?_, by dsimp only; omega⟩
    intro e' herror
    cases herror
    refine ⟨hroom, call, rfl, ?_⟩
    rw [Nat.add_zero, Nat.add_zero, he]
    rfl
  | case2 call position offset view hroom count hle he =>
    refine ⟨0, Nat.zero_le _, h, hnothing _ _ _, fun hok ↦ (by cases hok), ?_, by dsimp only; omega⟩
    intro e' herror
    cases herror
    refine ⟨hroom, call, rfl, ?_⟩
    rw [Nat.add_zero, Nat.add_zero, he]
    rfl
  | case3 call position offset view hroom count hpos hle havailable he ih =>
    have hpiece : ((data.drop offset).take count).length = count := by
      rw [List.length_take, List.length_drop]
      omega
    have hlength : (overwrite view position ((data.drop offset).take count)).length = view.length :=
      length_overwrite (by omega)
    have hstep : call + 1 + (view.length - (position + count)) ≤ call + (view.length - position) := by
      omega
    rw [hlength] at ih
    obtain ⟨n, hn, hend, hview, hok, herror, hcalls⟩ := ih (by omega)
    have hbound : count + n ≤ data.length - offset := by omega
    have hfit : position + (count + n) ≤ view.length := by omega
    refine ⟨count + n, hbound, hfit, ?_, fun hdone ↦ ?_, fun e hraised ↦ ?_, ?_⟩
    · have hmerge : overwrite (overwrite view position ((data.drop offset).take count))
          (position + ((data.drop offset).take count).length) ((data.drop (offset + count)).take n) =
          overwrite view position ((data.drop offset).take count ++
            (data.drop (offset + count)).take n) := overwrite_overwrite (by omega)
      rw [hpiece] at hmerge
      rw [hview, hmerge, List.take_add, List.drop_drop]
    · rw [← Nat.add_assoc]
      exact hok hdone
    · obtain ⟨hleft, last, hlast, hfailure⟩ := herror e hraised
      rw [Nat.add_assoc] at hleft
      rw [Nat.add_assoc, Nat.add_assoc] at hfailure
      exact ⟨hleft, last, hlast, hfailure⟩
    · exact Nat.le_trans hcalls hstep
  | case4 call position offset view hroom =>
    refine ⟨0, Nat.zero_le _, h, hnothing _ _ _, fun _ ↦ by omega, fun e herror ↦ (by cases herror),
      Nat.le_add_right _ _⟩

/-- A view that is filled from its start holds the bytes at the offset. -/
theorem readInto_ok {os : (call room remaining : Nat) → ReadResult room remaining} {data : Bytes}
    {offset : Nat} {view : Bytes} (h : (readInto os data 0 0 offset view).result = .ok ()) :
    view.length ≤ data.length - offset ∧
      (readInto os data 0 0 offset view).view = (data.drop offset).take view.length := by
  obtain ⟨n, hn, -, hview, hok, -⟩ := readInto_spec os data 0 0 offset view (Nat.zero_le _)
  have hall := hok h
  rw [Nat.zero_add] at hall
  have hpiece : ((data.drop offset).take n).length = n := by
    rw [List.length_take, List.length_drop]
    omega
  have hnone : view.drop n = [] := List.drop_of_length_le (by omega)
  refine ⟨by omega, ?_⟩
  rw [hview, overwrite, hpiece, Nat.zero_add, hnone, List.take_zero, List.nil_append,
    List.append_nil, hall]

/-- The view is filled when the file is long enough and every call moves some bytes. -/
theorem readInto_returns {os : (call room remaining : Nat) → ReadResult room remaining}
    {data : Bytes} {offset : Nat} {view : Bytes} (hlong : view.length ≤ data.length - offset)
    (h : ∀ call room remaining, 0 < room → 0 < remaining →
      (os call room remaining).failure = none) :
    (readInto os data 0 0 offset view).result = .ok () := by
  obtain ⟨n, -, -, -, -, herror, -⟩ := readInto_spec os data 0 0 offset view (Nat.zero_le _)
  cases hresult : (readInto os data 0 0 offset view).result with
  | ok u => rfl
  | error e =>
    obtain ⟨hleft, last, -, hfailure⟩ := herror e hresult
    rw [h last _ _ (by omega) (by omega)] at hfailure
    cases hfailure

/-- A read that succeeds gives as many bytes as it was asked for, from the offset on. -/
theorem readSmall_ok {os : (call room remaining : Nat) → ReadResult room remaining} {data : Bytes}
    {offset size : Nat} {content : Bytes} (h : readSmall os data offset size = .ok content) :
    size ≤ data.length - offset ∧ content = (data.drop offset).take size := by
  unfold readSmall at h
  dsimp only at h
  split at h
  · cases h
  · next hresult =>
    cases h
    have hread := readInto_ok hresult
    rwa [List.length_replicate] at hread

/-- Both loops end within a call for each byte, a write with all parts in order or an error after
a prefix of them, a read with the next bytes of the file or an error after some of them. The error
is the one of the last call, for a read past the end a truncated file, and no call that moves bytes
raises one. -/
theorem io_loops_transfer_exactly :
    (∀ (os : (call offered : Nat) → WriteResult offered) (parts : List Bytes) (file : Bytes),
      ((writeVector os 0 parts file).result = .ok () ∧
          (writeVector os 0 parts file).file = file ++ parts.flatten ∨
        ∃ e, (writeVector os 0 parts file).result = .error e ∧
          ∃ written, written <+: parts.flatten ∧
            (writeVector os 0 parts file).file = file ++ written ∧
            ∃ last, (writeVector os 0 parts file).calls = last + 1 ∧
              (os last (parts.flatten.length - written.length)).failure = some e) ∧
      ((∀ part ∈ parts, part ≠ []) →
        (∀ call offered, 0 < offered → (os call offered).failure = none) →
          (writeVector os 0 parts file).result = .ok ()) ∧
      (writeVector os 0 parts file).calls ≤ parts.flatten.length + parts.length) ∧
    ∀ (os : (call room remaining : Nat) → ReadResult room remaining) (data : Bytes) (offset : Nat)
      (view : Bytes),
      ((readInto os data 0 0 offset view).result = .ok () ∧
          view.length ≤ data.length - offset ∧
          (readInto os data 0 0 offset view).view = (data.drop offset).take view.length ∨
        ∃ e, (readInto os data 0 0 offset view).result = .error e ∧
          ∃ n, n < view.length ∧
            (readInto os data 0 0 offset view).view =
              overwrite view 0 ((data.drop offset).take n) ∧
            ∃ last, (readInto os data 0 0 offset view).calls = last + 1 ∧
              (os last (view.length - n) (data.length - (offset + n))).failure = some e) ∧
      (data.length - offset < view.length →
        ∃ e, (readInto os data 0 0 offset view).result = .error e ∧
          (e = .manifestError "truncated token file" ∨
            ∃ call room remaining, (readInto os data 0 0 offset view).calls = call + 1 ∧
              os call room remaining = .raised e)) ∧
      (view.length ≤ data.length - offset →
        (∀ call room remaining, 0 < room → 0 < remaining →
          (os call room remaining).failure = none) →
          (readInto os data 0 0 offset view).result = .ok ()) ∧
      (readInto os data 0 0 offset view).calls ≤ view.length ∧
      ∀ size content, readSmall os data offset size = .ok content →
        size ≤ data.length - offset ∧ content = (data.drop offset).take size := by
  constructor
  · intro os parts file
    obtain ⟨written, hprefix, hfile, hall, herror, hcalls⟩ := writeVector_spec os 0 parts file
    refine ⟨?_, fun hparts hmoves ↦ writeVector_ok ?_ hmoves, by omega⟩
    · cases hresult : (writeVector os 0 parts file).result with
      | ok u => exact .inl ⟨rfl, by rw [hfile, hall hresult]⟩
      | error e =>
        obtain ⟨last, hlast, hfailure, -⟩ := herror e hresult
        exact .inr ⟨e, rfl, written, hprefix, hfile, last, hlast, hfailure⟩
    · intro hnil
      cases parts with
      | nil => rfl
      | cons part parts =>
        have hpart := (List.append_eq_nil_iff.mp (List.flatten_cons ▸ hnil)).1
        exact absurd hpart (hparts part List.mem_cons_self)
  · intro os data offset view
    obtain ⟨n, hn, -, hview, hok, herror, hcalls⟩ :=
      readInto_spec os data 0 0 offset view (Nat.zero_le _)
    refine ⟨?_, ?_, readInto_returns, by omega, ?_⟩
    · cases hresult : (readInto os data 0 0 offset view).result with
      | ok u => exact .inl ⟨rfl, readInto_ok hresult⟩
      | error e =>
        obtain ⟨hleft, last, hlast, hfailure⟩ := herror e hresult
        rw [Nat.zero_add] at hleft hfailure
        exact .inr ⟨e, rfl, n, hleft, hview, last, hlast, hfailure⟩
    · intro hshort
      cases hresult : (readInto os data 0 0 offset view).result with
      | ok u =>
        have := (readInto_ok hresult).1
        omega
      | error e =>
        obtain ⟨-, last, hlast, hfailure⟩ := herror e hresult
        rw [Nat.zero_add] at hfailure
        refine ⟨e, rfl, ?_⟩
        rcases ReadResult.failure_eq_some hfailure with htruncated | hcall
        · exact .inl htruncated
        · exact .inr ⟨last, _, _, hlast, hcall⟩
    · exact fun size content hsmall ↦ readSmall_ok hsmall

end SpoolCache.Store.FileIo
