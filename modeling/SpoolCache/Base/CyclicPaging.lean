import Mathlib.Data.List.Sort
import Mathlib.Order.Lattice
import Mathlib.Tactic.Common

/-!
# Cyclic pages of a shrinking set

Library `Base`. A set of names is read in bounded pages: every page starts behind a cursor, a full
page leaves its last name as the cursor, and a page that would be empty starts over. Names of a
page may be removed before the next one is read. Two sweeps reach every name.
-/

namespace SpoolCache.Base

universe u

variable {α : Type u} [LinearOrder α]

/-- The names behind a cursor, in order. -/
def following (names : List α) (after : Option α) : List α :=
  (names.filter fun name ↦ decide (∀ cursor ∈ after, cursor < name)).insertionSort (· ≤ ·)

/-- The names that the current sweep has yet to read: all of them, when none is behind the
cursor. -/
def sweep (names : List α) (after : Option α) : List α :=
  if following names after = [] then following names none else following names after

/-- The page that is read next. -/
def cyclicPage (limit : Nat) (names : List α) (after : Option α) : List α :=
  (sweep names after).take limit

/-- The cursor a page leaves; a short page starts over. -/
def nextCursor (limit : Nat) (page : List α) : Option α :=
  if page.length = limit then page.getLast? else none

variable {names : List α}

private theorem mem_following {after : Option α} {name : α} :
    name ∈ following names after ↔ name ∈ names ∧ ∀ cursor ∈ after, cursor < name := by
  rw [following, (List.perm_insertionSort _ _).mem_iff, List.mem_filter, decide_eq_true_iff]

private theorem length_following_le (names : List α) (after : Option α) :
    (following names after).length ≤ names.length := by
  rw [following, List.length_insertionSort]
  exact List.length_filter_le _ _

private theorem pairwise_following (hn : names.Nodup) (after : Option α) :
    (following names after).Pairwise (· < ·) := by
  have hnd : (following names after).Nodup :=
    (List.perm_insertionSort _ _).symm.nodup (hn.filter _)
  have hsorted : (following names after).Pairwise (· ≤ ·) := List.pairwise_insertionSort _ _
  exact (hsorted.and hnd).imp fun h ↦ lt_of_le_of_ne h.1 h.2

/-- A sweep visits given names only. -/
theorem mem_of_mem_sweep {after : Option α} {name : α} (h : name ∈ sweep names after) :
    name ∈ names := by
  unfold sweep at h
  split at h
  · exact (mem_following.mp h).1
  · exact (mem_following.mp h).1

private theorem pairwise_sweep (hn : names.Nodup) (after : Option α) :
    (sweep names after).Pairwise (· < ·) := by
  unfold sweep
  split
  · exact pairwise_following hn none
  · exact pairwise_following hn after

/-- A sweep is no longer than the names. -/
theorem length_sweep_le (names : List α) (after : Option α) :
    (sweep names after).length ≤ names.length := by
  unfold sweep
  split
  · exact length_following_le names none
  · exact length_following_le names after

/-- A page is no longer than the limit. -/
theorem length_cyclicPage_le (limit : Nat) (names : List α) (after : Option α) :
    (cyclicPage limit names after).length ≤ limit := by
  rw [cyclicPage, List.length_take]
  exact Nat.min_le_left _ _

/-- A page is in order, without repetition. -/
theorem pairwise_cyclicPage (hn : names.Nodup) (limit : Nat) (after : Option α) :
    (cyclicPage limit names after).Pairwise (· < ·) :=
  (pairwise_sweep hn after).sublist (List.take_sublist _ _)

/-! ### The next sweep -/

private theorem eq_of_pairwise_lt {l l' : List α} (h : l.Pairwise (· < ·))
    (h' : l'.Pairwise (· < ·)) (hmem : ∀ a, a ∈ l ↔ a ∈ l') : l = l' := by
  have hperm : l.Perm l' := (List.perm_ext_iff_of_nodup (h.imp ne_of_lt) (h'.imp ne_of_lt)).mpr hmem
  exact hperm.eq_of_pairwise (fun a b _ _ hab hba ↦ absurd hab (lt_asymm hba)) h h'

/-- A sweep behind a cursor is the part of the sorted names above a threshold. -/
theorem mem_sweep_of_lt {after : Option α} {a b : α} (ha : a ∈ sweep names after)
    (hb : b ∈ names) (hab : a < b) : b ∈ sweep names after := by
  unfold sweep at ha ⊢
  split at ha
  · next he =>
    rw [if_pos he]
    exact mem_following.mpr ⟨hb, fun _ h ↦ (by cases h)⟩
  · next he =>
    rw [if_neg he]
    exact mem_following.mpr ⟨hb, fun cursor hc ↦ lt_trans ((mem_following.mp ha).2 cursor hc) hab⟩

/-- The names a page leaves: none but names of the page may go. -/
structure LeavesOthers (page names names' : List α) : Prop where
  subset : ∀ a ∈ names', a ∈ names
  keep : ∀ a ∈ names, a ∉ page → a ∈ names'

variable {names' : List α} {limit : Nat} {after : Option α}

/-- The names behind a full page that is not the last one are the rest of the sweep. -/
theorem following_nextCursor (hn : names.Nodup) (hn' : names'.Nodup)
    (hp : LeavesOthers (cyclicPage limit names after) names names') (hl : 0 < limit)
    (hle : limit ≤ (sweep names after).length) :
    following names' (nextCursor limit (cyclicPage limit names after)) =
      (sweep names after).drop limit := by
  have hlen : (cyclicPage limit names after).length = limit := by
    rw [cyclicPage, List.length_take, Nat.min_eq_left hle]
  have hsorted := pairwise_sweep hn after
  have hsplit : cyclicPage limit names after ++ (sweep names after).drop limit =
      sweep names after := List.take_append_drop _ _
  have hne : cyclicPage limit names after ≠ [] := by
    intro h
    rw [h, List.length_nil] at hlen
    omega
  have hlast := List.getLast_mem hne
  have hcursor : nextCursor limit (cyclicPage limit names after) =
      some ((cyclicPage limit names after).getLast hne) := by
    rw [nextCursor, if_pos hlen, List.getLast?_eq_some_getLast hne]
  rw [← hsplit] at hsorted
  obtain ⟨hpage, hrest, hcross⟩ := List.pairwise_append.mp hsorted
  refine eq_of_pairwise_lt (pairwise_following hn' _) hrest fun a ↦ ?_
  rw [mem_following, hcursor]
  constructor
  · rintro ⟨ha, hlt⟩
    have hlt := hlt _ rfl
    have hsweep := mem_sweep_of_lt (List.mem_of_mem_take hlast) (hp.subset a ha) hlt
    rw [← hsplit, List.mem_append] at hsweep
    refine hsweep.resolve_left fun hm ↦ ?_
    -- no name of a sorted page is above its last one
    rw [← List.dropLast_append_getLast hne, List.mem_append, List.mem_singleton] at hm
    rw [← List.dropLast_append_getLast hne] at hpage
    rcases hm with hm | hm
    · exact lt_asymm hlt ((List.pairwise_append.mp hpage).2.2 a hm _ List.mem_cons_self)
    · exact absurd hlt (hm ▸ lt_irrefl _)
  · intro ha
    have hnot : a ∉ cyclicPage limit names after := fun hm ↦ lt_irrefl a (hcross a hm a ha)
    refine ⟨hp.keep a (mem_of_mem_sweep (List.mem_of_mem_drop ha)) hnot, ?_⟩
    intro cursor hc
    cases hc
    exact hcross _ hlast a ha

/-- Within a sweep the next page continues it. -/
theorem sweep_next (hn : names.Nodup) (hn' : names'.Nodup)
    (hp : LeavesOthers (cyclicPage limit names after) names names') (hl : 0 < limit)
    (hlt : limit < (sweep names after).length) :
    sweep names' (nextCursor limit (cyclicPage limit names after)) =
      (sweep names after).drop limit := by
  have hf := following_nextCursor hn hn' hp hl (Nat.le_of_lt hlt)
  rw [sweep, hf, if_neg]
  intro he
  have hlen := congrArg List.length he
  rw [List.length_drop, List.length_nil] at hlen
  omega

/-- The last page of a sweep, full or short, starts the next one. -/
theorem sweep_restart (hn : names.Nodup) (hn' : names'.Nodup)
    (hp : LeavesOthers (cyclicPage limit names after) names names') (hl : 0 < limit)
    (hle : (sweep names after).length ≤ limit) :
    sweep names' (nextCursor limit (cyclicPage limit names after)) = following names' none := by
  obtain heq | hlt := Nat.eq_or_lt_of_le hle
  · have hf := following_nextCursor hn hn' hp hl (Nat.le_of_eq heq.symm)
    rw [List.drop_of_length_le hle] at hf
    rw [sweep, if_pos hf]
  · have hcursor : nextCursor limit (cyclicPage limit names after) = none := by
      rw [nextCursor, if_neg]
      rw [cyclicPage, List.length_take]
      omega
    rw [hcursor, sweep]
    split <;> rfl

/-! ### Runs -/

variable (gone : α → Bool) (limit)

/-- The names after a page: those of the page that are gone are removed. -/
def afterPage (names : List α) (after : Option α) : List α :=
  names.filter fun name ↦ !(decide (name ∈ cyclicPage limit names after) && gone name)

/-- The pages of consecutive rounds. -/
def cyclicPages : Nat → List α → Option α → List (List α)
  | 0, _, _ => []
  | rounds + 1, names, after =>
    cyclicPage limit names after ::
      cyclicPages rounds (afterPage limit gone names after)
        (nextCursor limit (cyclicPage limit names after))

variable {gone limit}

/-- After a page the names that it removed are gone. -/
theorem mem_afterPage {name : α} :
    name ∈ afterPage limit gone names after ↔
      name ∈ names ∧ ¬ (name ∈ cyclicPage limit names after ∧ gone name = true) := by
  rw [afterPage, List.mem_filter, Bool.not_eq_true', Bool.and_eq_false_iff,
    decide_eq_false_iff_not, Bool.eq_false_iff, ← not_and_or]

private theorem nodup_afterPage (hn : names.Nodup) : (afterPage limit gone names after).Nodup :=
  hn.filter _

private theorem leavesOthers_afterPage (names : List α) (after : Option α) :
    LeavesOthers (cyclicPage limit names after) names (afterPage limit gone names after) :=
  ⟨fun _ ha ↦ (mem_afterPage.mp ha).1,
    fun _ ha hpage ↦ mem_afterPage.mpr ⟨ha, fun h ↦ hpage h.1⟩⟩

/-- A name of the current sweep is read before the sweep ends. -/
theorem exists_page_of_mem_sweep (hl : 0 < limit) {rounds : Nat} (hn : names.Nodup)
    (hlen : (sweep names after).length ≤ rounds * limit) {name : α}
    (hname : name ∈ sweep names after) :
    ∃ page ∈ cyclicPages limit gone rounds names after, name ∈ page := by
  induction rounds generalizing names after with
  | zero =>
    have hpos := List.length_pos_of_mem hname
    omega
  | succ rounds ih =>
    rw [← List.take_append_drop limit (sweep names after), List.mem_append] at hname
    rcases hname with hname | hname
    · exact ⟨_, List.mem_cons_self, hname⟩
    · have hdrop := List.length_pos_of_mem hname
      rw [List.length_drop] at hdrop
      have hn' : (afterPage limit gone names after).Nodup := nodup_afterPage hn
      have hnext := sweep_next hn hn' (leavesOthers_afterPage names after) hl (by omega)
      rw [Nat.succ_mul] at hlen
      obtain ⟨page, hpage, hmem⟩ := ih hn' (by rw [hnext, List.length_drop]; omega)
        (by rw [hnext]; exact hname)
      exact ⟨page, List.mem_cons_of_mem _ hpage, hmem⟩

/-- Two sweeps read every name. -/
theorem exists_page_of_mem (hl : 0 < limit) {rounds more : Nat} (hn : names.Nodup)
    (hlen : (sweep names after).length ≤ rounds * limit) (hmore : names.length ≤ more * limit)
    {name : α} (hname : name ∈ names) :
    ∃ page ∈ cyclicPages limit gone (rounds + more) names after, name ∈ page := by
  induction rounds generalizing names after with
  | zero =>
    have hempty : sweep names after = [] := List.eq_nil_of_length_eq_zero (by omega)
    have hall : following names none = [] := by
      unfold sweep at hempty
      split at hempty
      · exact hempty
      · contradiction
    have hmem : name ∈ following names none := mem_following.mpr ⟨hname, fun _ h ↦ (by cases h)⟩
    rw [hall] at hmem
    cases hmem
  | succ rounds ih =>
    rw [Nat.succ_mul] at hlen
    by_cases hpage : name ∈ cyclicPage limit names after
    · refine ⟨_, ?_, hpage⟩
      rw [Nat.succ_add]
      exact List.mem_cons_self
    · have hname' : name ∈ afterPage limit gone names after :=
        mem_afterPage.mpr ⟨hname, fun h ↦ hpage h.1⟩
      have hn' : (afterPage limit gone names after).Nodup := nodup_afterPage hn
      have hp : LeavesOthers (cyclicPage limit names after) names
        (afterPage limit gone names after) := leavesOthers_afterPage names after
      have hshrink : (afterPage limit gone names after).length ≤ names.length :=
        List.length_filter_le _ _
      rw [Nat.succ_add]
      by_cases hlt : limit < (sweep names after).length
      · have hnext := sweep_next hn hn' hp hl hlt
        obtain ⟨page, hmem, hin⟩ := ih hn' (by rw [hnext, List.length_drop]; omega) (by omega)
          hname'
        exact ⟨page, List.mem_cons_of_mem _ hmem, hin⟩
      · have hnext := sweep_restart hn hn' hp hl (by omega)
        have hsweep : name ∈ sweep (afterPage limit gone names after)
            (nextCursor limit (cyclicPage limit names after)) := by
          rw [hnext]
          exact mem_following.mpr ⟨hname', fun _ h ↦ (by cases h)⟩
        have hlength := length_sweep_le (afterPage limit gone names after)
          (nextCursor limit (cyclicPage limit names after))
        have hrounds : (sweep (afterPage limit gone names after)
            (nextCursor limit (cyclicPage limit names after))).length ≤
              (rounds + more) * limit := by
          rw [Nat.add_mul]
          omega
        obtain ⟨page, hmem, hin⟩ := exists_page_of_mem_sweep hl hn' hrounds hsweep
        exact ⟨page, List.mem_cons_of_mem _ hmem, hin⟩

end SpoolCache.Base
