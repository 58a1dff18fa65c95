import Mathlib.Data.List.Basic
import Mathlib.Logic.Function.Basic
import Mathlib.Logic.Relation
import Mathlib.Tactic.Common

/-!
# A lock and pools of credits

Library `Base`. Programs that take one re-entrant lock and borrow credits of bounded pools, with
exceptions, `finally` blocks and generators that keep a credit between two calls of `next`. A
program is safe when it takes the lock only while it owns it or holds no credit, and borrows only
while it holds no credit. Threads of safe programs never wait for each other in a cycle.
-/

namespace SpoolCache.Base

universe u v

/-! ### Programs -/

/-- Statements; `P` names the pools. Local work may raise. -/
inductive Code (P : Type u) where
  | work
  | raise
  | seq (first second : Code P)
  | alt (left right : Code P)
  | loop (body : Code P)
  | tryExcept (body handler : Code P)
  | tryFinally (body final : Code P)
  | withLock (body : Code P)
  | withCredit (pool : P) (body : Code P)
  | closing (pool : P) (body : Code P)
  | next (pool : P)
  deriving DecidableEq

/-- What a program does to the lock and the pools. -/
inductive Action (P : Type u) where
  | lock
  | unlock
  | take (pool : P)
  | give (pool : P)
  deriving DecidableEq

variable {P : Type u}

/-- The credit a suspended generator returns when it is resumed or closed. -/
def giveHeld (pool : P) (held : Bool) : List (Action P) := if held then [.give pool] else []

/-- `Runs code held actions held' raised`: a path of a program with its actions, the credit that
the surrounding generator holds before and after it, and whether it raises. -/
inductive Runs : Code P → Bool → List (Action P) → Bool → Bool → Prop
  | work (h r : Bool) : Runs .work h [] h r
  | raise (h : Bool) : Runs .raise h [] h true
  | seq {a b s t h h' h'' r} (first : Runs a h s h' false) (second : Runs b h' t h'' r) :
      Runs (.seq a b) h (s ++ t) h'' r
  | seqRaise {a b s h h'} (first : Runs a h s h' true) : Runs (.seq a b) h s h' true
  | left {a b s h h' r} (run : Runs a h s h' r) : Runs (.alt a b) h s h' r
  | right {a b s h h' r} (run : Runs b h s h' r) : Runs (.alt a b) h s h' r
  | loopDone {a} (h : Bool) : Runs (.loop a) h [] h false
  | loopStep {a s t h h' h'' r} (first : Runs a h s h' false)
      (rest : Runs (.loop a) h' t h'' r) : Runs (.loop a) h (s ++ t) h'' r
  | loopRaise {a s h h'} (first : Runs a h s h' true) : Runs (.loop a) h s h' true
  | tryDone {a b s h h'} (body : Runs a h s h' false) : Runs (.tryExcept a b) h s h' false
  | tryPass {a b s h h'} (body : Runs a h s h' true) : Runs (.tryExcept a b) h s h' true
  | tryCaught {a b s t h h' h'' r} (body : Runs a h s h' true) (handler : Runs b h' t h'' r) :
      Runs (.tryExcept a b) h (s ++ t) h'' r
  | tryFinally {a b s t h h' h'' r r'} (body : Runs a h s h' r) (final : Runs b h' t h'' r') :
      Runs (.tryFinally a b) h (s ++ t) h'' (r || r')
  | withLock {a s h h' r} (body : Runs a h s h' r) :
      Runs (.withLock a) h (.lock :: (s ++ [.unlock])) h' r
  | withLockRaise {a} (h : Bool) : Runs (.withLock a) h [.lock, .unlock] h true
  | withCredit {a p s h h' r} (body : Runs a h s h' r) :
      Runs (.withCredit p a) h (.take p :: (s ++ [.give p])) h' r
  | withCreditRaise {a p} (h : Bool) : Runs (.withCredit p a) h [] h true
  | withCreditClosed {a p} (h : Bool) : Runs (.withCredit p a) h [.take p, .give p] h true
  | closing {a p s h h' r} (body : Runs a false s h' r) :
      Runs (.closing p a) h (s ++ giveHeld p h') h r
  | nextYield {p} (h : Bool) : Runs (.next p) h (giveHeld p h ++ [.take p]) true false
  | nextDone {p} (h r : Bool) : Runs (.next p) h (giveHeld p h) false r
  | nextRaise {p} (h : Bool) : Runs (.next p) h (giveHeld p h ++ [.take p, .give p]) false true

/-! ### Safe programs -/

/-- The credit that a statement may find its thread holding. -/
inductive Credit (P : Type u) where
  | none
  | borrowed (pool : P)
  | stream (pool : P)
  deriving DecidableEq

/-- The check of a program, given whether the lock is owned and which credit may be held. -/
def Code.safe [DecidableEq P] : Code P → Bool → Credit P → Bool
  | .work, _, _ => true
  | .raise, _, _ => true
  | .seq a b, owned, credit => a.safe owned credit && b.safe owned credit
  | .alt a b, owned, credit => a.safe owned credit && b.safe owned credit
  | .loop a, owned, credit => a.safe owned credit
  | .tryExcept a b, owned, credit => a.safe owned credit && b.safe owned credit
  | .tryFinally a b, owned, credit => a.safe owned credit && b.safe owned credit
  | .withLock a, owned, credit => (owned || decide (credit = .none)) && a.safe true credit
  | .withCredit p a, owned, credit => decide (credit = .none) && a.safe owned (.borrowed p)
  | .closing p a, owned, credit => decide (credit = .none) && a.safe owned (.stream p)
  | .next p, _, credit => decide (credit = .stream p)

/-- The credits that are held, given whether the generator holds its one. -/
def Credit.held : Credit P → Bool → List P
  | .none, _ => []
  | .borrowed p, _ => [p]
  | .stream p, h => if h then [p] else []

/-- The actions lead from one depth of the lock and list of credits to another: the lock is taken
while owned or without credits, and a credit only without credits. -/
def Leads : Nat → List P → List (Action P) → Nat → List P → Prop
  | d, c, [], d', c' => d = d' ∧ c = c'
  | d, c, .lock :: t, d', c' => (0 < d ∨ c = []) ∧ Leads (d + 1) c t d' c'
  | d, c, .unlock :: t, d', c' => 0 < d ∧ Leads (d - 1) c t d' c'
  | d, c, .take p :: t, d', c' => c = [] ∧ Leads d [p] t d' c'
  | d, c, .give p :: t, d', c' => c = [p] ∧ Leads d [] t d' c'

private theorem Leads.append {s t : List (Action P)} {d d' d'' : Nat} {c c' c'' : List P}
    (hs : Leads d c s d' c') (ht : Leads d' c' t d'' c'') : Leads d c (s ++ t) d'' c'' := by
  induction s generalizing d c with
  | nil =>
    obtain ⟨rfl, rfl⟩ := hs
    exact ht
  | cons a s ih =>
    cases a with
    | lock => exact ⟨hs.1, ih hs.2⟩
    | unlock => exact ⟨hs.1, ih hs.2⟩
    | take p => exact ⟨hs.1, ih hs.2⟩
    | give p => exact ⟨hs.1, ih hs.2⟩

private theorem leads_giveHeld (d : Nat) (p : P) (h : Bool) :
    Leads d ((Credit.stream p).held h) (giveHeld p h) d [] := by
  cases h with
  | false => exact ⟨rfl, rfl⟩
  | true => exact ⟨rfl, rfl, rfl⟩

/-- Every path of a safe program leads back to the depth it started from. -/
theorem leads_of_safe [DecidableEq P] {a : Code P} {h h' r : Bool} {t : List (Action P)}
    (hrun : Runs a h t h' r) {owned : Bool} {credit : Credit P} (hsafe : a.safe owned credit = true)
    {d : Nat} (hd : owned = true → 0 < d) : Leads d (credit.held h) t d (credit.held h') := by
  induction hrun generalizing owned credit d with
  | work => exact ⟨rfl, rfl⟩
  | raise => exact ⟨rfl, rfl⟩
  | seq _ _ ih₁ ih₂ =>
    rw [Code.safe, Bool.and_eq_true] at hsafe
    exact (ih₁ hsafe.1 hd).append (ih₂ hsafe.2 hd)
  | seqRaise _ ih =>
    rw [Code.safe, Bool.and_eq_true] at hsafe
    exact ih hsafe.1 hd
  | left _ ih =>
    rw [Code.safe, Bool.and_eq_true] at hsafe
    exact ih hsafe.1 hd
  | right _ ih =>
    rw [Code.safe, Bool.and_eq_true] at hsafe
    exact ih hsafe.2 hd
  | loopDone => exact ⟨rfl, rfl⟩
  | loopStep _ _ ih₁ ih₂ => exact (ih₁ hsafe hd).append (ih₂ hsafe hd)
  | loopRaise _ ih => exact ih hsafe hd
  | tryDone _ ih =>
    rw [Code.safe, Bool.and_eq_true] at hsafe
    exact ih hsafe.1 hd
  | tryPass _ ih =>
    rw [Code.safe, Bool.and_eq_true] at hsafe
    exact ih hsafe.1 hd
  | tryCaught _ _ ih₁ ih₂ =>
    rw [Code.safe, Bool.and_eq_true] at hsafe
    exact (ih₁ hsafe.1 hd).append (ih₂ hsafe.2 hd)
  | tryFinally _ _ ih₁ ih₂ =>
    rw [Code.safe, Bool.and_eq_true] at hsafe
    exact (ih₁ hsafe.1 hd).append (ih₂ hsafe.2 hd)
  | withLock _ ih =>
    rw [Code.safe, Bool.and_eq_true, Bool.or_eq_true, decide_eq_true_eq] at hsafe
    refine ⟨?_, (ih hsafe.2 fun _ ↦ Nat.succ_pos d).append ⟨Nat.succ_pos d, rfl, rfl⟩⟩
    rcases hsafe.1 with howned | hcredit
    · exact .inl (hd howned)
    · rw [hcredit]
      exact .inr rfl
  | withLockRaise =>
    rw [Code.safe, Bool.and_eq_true, Bool.or_eq_true, decide_eq_true_eq] at hsafe
    refine ⟨?_, Nat.succ_pos d, rfl, rfl⟩
    rcases hsafe.1 with howned | hcredit
    · exact .inl (hd howned)
    · rw [hcredit]
      exact .inr rfl
  | withCredit _ ih =>
    rw [Code.safe, Bool.and_eq_true, decide_eq_true_eq] at hsafe
    obtain ⟨rfl, hbody⟩ := hsafe
    exact ⟨rfl, (ih hbody hd).append ⟨rfl, rfl, rfl⟩⟩
  | withCreditRaise => exact ⟨rfl, rfl⟩
  | withCreditClosed =>
    rw [Code.safe, Bool.and_eq_true, decide_eq_true_eq] at hsafe
    obtain ⟨rfl, -⟩ := hsafe
    exact ⟨rfl, rfl, rfl, rfl⟩
  | closing _ ih =>
    rw [Code.safe, Bool.and_eq_true, decide_eq_true_eq] at hsafe
    obtain ⟨rfl, hbody⟩ := hsafe
    exact (ih hbody hd).append (leads_giveHeld d _ _)
  | nextYield =>
    rw [Code.safe, decide_eq_true_eq] at hsafe
    subst hsafe
    exact (leads_giveHeld d _ _).append ⟨rfl, rfl, rfl⟩
  | nextDone =>
    rw [Code.safe, decide_eq_true_eq] at hsafe
    subst hsafe
    exact leads_giveHeld d _ _
  | nextRaise =>
    rw [Code.safe, decide_eq_true_eq] at hsafe
    subst hsafe
    exact (leads_giveHeld d _ _).append ⟨rfl, rfl, rfl, rfl⟩

/-! ### Threads -/

/-- A thread: the actions it has still to do, the depth of its lock and its credits. -/
structure LockThread (P : Type u) where
  rest : List (Action P)
  depth : Nat
  credits : List P

/-- The threads, and the threads that hold a credit of each pool. -/
structure LockSystem (ι : Type v) (P : Type u) where
  thread : ι → LockThread P
  borrowers : P → List ι

variable {ι : Type v}

/-- The system after one thread moved. -/
def LockSystem.move [DecidableEq ι] (s : LockSystem ι P) (i : ι) (t : LockThread P) : LockSystem ι P :=
  { s with thread := Function.update s.thread i t }

/-- The lock is taken when no other thread owns it, a credit when the pool has one left. -/
inductive LockStep [DecidableEq ι] [DecidableEq P] (capacity : P → Nat) :
    LockSystem ι P → LockSystem ι P → Prop
  | lock {s : LockSystem ι P} {i : ι} {t : List (Action P)}
      (rest : (s.thread i).rest = .lock :: t) (free : ∀ j, j ≠ i → (s.thread j).depth = 0) :
      LockStep capacity s (s.move i ⟨t, (s.thread i).depth + 1, (s.thread i).credits⟩)
  | unlock {s : LockSystem ι P} {i : ι} {t : List (Action P)}
      (rest : (s.thread i).rest = .unlock :: t) :
      LockStep capacity s (s.move i ⟨t, (s.thread i).depth - 1, (s.thread i).credits⟩)
  | take {s : LockSystem ι P} {i : ι} {p : P} {t : List (Action P)}
      (rest : (s.thread i).rest = .take p :: t) (free : (s.borrowers p).length < capacity p) :
      LockStep capacity s
        { s.move i ⟨t, (s.thread i).depth, p :: (s.thread i).credits⟩ with
          borrowers := Function.update s.borrowers p (i :: s.borrowers p) }
  | give {s : LockSystem ι P} {i : ι} {p : P} {t : List (Action P)}
      (rest : (s.thread i).rest = .give p :: t) :
      LockStep capacity s
        { s.move i ⟨t, (s.thread i).depth, (s.thread i).credits.erase p⟩ with
          borrowers := Function.update s.borrowers p ((s.borrowers p).erase i) }

/-- Every thread is at the start of a path of its program. -/
def LockSystem.starts (program : ι → Code P) (s : LockSystem ι P) : Prop :=
  (∀ i, ∃ path raised, Runs (program i) false path false raised ∧ s.thread i = ⟨path, 0, []⟩) ∧
    ∀ p, s.borrowers p = []

/-- The states of every run. -/
def LockSystem.Reachable [DecidableEq ι] [DecidableEq P] (capacity : P → Nat)
    (program : ι → Code P) (s : LockSystem ι P) : Prop :=
  ∃ s₀ : LockSystem ι P, s₀.starts program ∧ Relation.ReflTransGen (LockStep capacity) s₀ s

/-- The thread is about to take the lock, which another thread owns. -/
def LockSystem.BlockedOnLock (s : LockSystem ι P) (i : ι) : Prop :=
  (∃ t, (s.thread i).rest = .lock :: t) ∧ ∃ j, j ≠ i ∧ 0 < (s.thread j).depth

/-- The thread is about to borrow from a pool that has no credit left. -/
def LockSystem.BlockedOnPool (capacity : P → Nat) (s : LockSystem ι P) (i : ι) (p : P) : Prop :=
  (∃ t, (s.thread i).rest = .take p :: t) ∧ capacity p ≤ (s.borrowers p).length

/-- A blocked thread waits for the owner of the lock, or for every holder of a credit. -/
def LockSystem.WaitsFor (capacity : P → Nat) (s : LockSystem ι P) (i j : ι) : Prop :=
  (s.BlockedOnLock i ∧ 0 < (s.thread j).depth) ∨
    ∃ p, s.BlockedOnPool capacity i p ∧ p ∈ (s.thread j).credits

/-! ### What holds in every run -/

/-- What holds in every state: what is left of every thread leads to no lock and no credit, one
thread owns the lock, and the pools know the holders of their credits. -/
structure LockInv (s : LockSystem ι P) : Prop where
  leads : ∀ i, Leads (s.thread i).depth (s.thread i).credits (s.thread i).rest 0 []
  owner : ∀ i j, 0 < (s.thread i).depth → 0 < (s.thread j).depth → i = j
  borrowers : ∀ p i, i ∈ s.borrowers p ↔ p ∈ (s.thread i).credits
  nodup : ∀ p, (s.borrowers p).Nodup

private theorem lockInv_of_starts [DecidableEq P] {program : ι → Code P}
    (hsafe : ∀ i, (program i).safe false .none = true) {s : LockSystem ι P}
    (h : s.starts program) : LockInv s := by
  obtain ⟨hthreads, hpools⟩ := h
  refine ⟨?_, ?_, ?_, ?_⟩
  · intro i
    obtain ⟨path, raised, hrun, hi⟩ := hthreads i
    rw [hi]
    exact leads_of_safe hrun (hsafe i) (fun h ↦ (by cases h))
  · intro i j hi
    obtain ⟨path, raised, -, he⟩ := hthreads i
    rw [he] at hi
    cases hi
  · intro p i
    obtain ⟨path, raised, -, he⟩ := hthreads i
    rw [he, hpools]
    exact ⟨fun h ↦ (by cases h), fun h ↦ (by cases h)⟩
  · intro p
    rw [hpools]
    exact List.nodup_nil

section

variable [DecidableEq ι] {s : LockSystem ι P} {i : ι} {t : LockThread P}

private theorem LockSystem.thread_move (s : LockSystem ι P) (i : ι) (t : LockThread P) (j : ι) :
    (s.move i t).thread j = if j = i then t else s.thread j := Function.update_apply _ _ _ _

private theorem LockInv.leads_move (hs : LockInv s) (ht : Leads t.depth t.credits t.rest 0 [])
    (j : ι) :
    Leads ((s.move i t).thread j).depth ((s.move i t).thread j).credits
      ((s.move i t).thread j).rest 0 [] := by
  rw [LockSystem.thread_move]
  split
  · exact ht
  · exact hs.leads j

private theorem LockInv.owner_move (hs : LockInv s) (ht : 0 < t.depth → 0 < (s.thread i).depth)
    (j k : ι)
    (hj : 0 < ((s.move i t).thread j).depth) (hk : 0 < ((s.move i t).thread k).depth) : j = k := by
  have hbefore : ∀ l, 0 < ((s.move i t).thread l).depth → 0 < (s.thread l).depth := by
    intro l hl
    rw [LockSystem.thread_move] at hl
    split at hl
    · next hli =>
      rw [hli]
      exact ht hl
    · exact hl
  exact hs.owner j k (hbefore j hj) (hbefore k hk)

private theorem LockInv.borrowers_move (hs : LockInv s) (ht : t.credits = (s.thread i).credits)
    (p : P) (j : ι) : j ∈ s.borrowers p ↔ p ∈ ((s.move i t).thread j).credits := by
  rw [LockSystem.thread_move]
  split
  · next hj =>
    rw [ht, hj]
    exact hs.borrowers p i
  · exact hs.borrowers p j

end

private theorem lockInv_step [DecidableEq ι] [DecidableEq P] {capacity : P → Nat}
    {s s' : LockSystem ι P} (hs : LockInv s) (h : LockStep capacity s s') : LockInv s' := by
  cases h with
  | @lock i t hrest hfree =>
    have hleads := hs.leads i
    rw [hrest] at hleads
    refine ⟨hs.leads_move hleads.2, ?_, hs.borrowers_move rfl, hs.nodup⟩
    have hother : ∀ l, 0 < ((s.move i ⟨t, (s.thread i).depth + 1,
        (s.thread i).credits⟩).thread l).depth → l = i := by
      intro l hl
      rw [LockSystem.thread_move] at hl
      split at hl
      · next hli => exact hli
      · next hli =>
        rw [hfree l hli] at hl
        cases hl
    intro j k hj hk
    rw [hother j hj, hother k hk]
  | @unlock i t hrest =>
    have hleads := hs.leads i
    rw [hrest] at hleads
    exact ⟨hs.leads_move hleads.2, hs.owner_move fun _ ↦ hleads.1, hs.borrowers_move rfl, hs.nodup⟩
  | @take i p t hrest hfree =>
    have hleads := hs.leads i
    rw [hrest] at hleads
    obtain ⟨hnone, hleads⟩ := hleads
    have hnot : ∀ q, i ∉ s.borrowers q := by
      intro q hq
      rw [hs.borrowers, hnone] at hq
      cases hq
    refine ⟨hs.leads_move (by rw [hnone]; exact hleads), hs.owner_move id, ?_, ?_⟩
    · intro q j
      have hj := hs.borrowers q j
      rw [LockSystem.thread_move]
      simp only [Function.update_apply]
      split
      · next hq =>
        subst hq
        split
        · next hji => simp [hji]
        · next hji =>
          rw [List.mem_cons, or_iff_right hji]
          exact hj
      · next hq =>
        split
        · next hji =>
          rw [hji, hnone, List.mem_singleton, iff_false_right hq]
          exact hnot q
        · exact hj
    · intro q
      simp only [Function.update_apply]
      split
      · exact List.nodup_cons.mpr ⟨hnot p, hs.nodup p⟩
      · exact hs.nodup q
  | @give i p t hrest =>
    have hleads := hs.leads i
    rw [hrest] at hleads
    obtain ⟨hone, hleads⟩ := hleads
    have hcredits : (s.thread i).credits.erase p = [] := by
      rw [hone]
      simp
    refine ⟨hs.leads_move (by rw [hcredits]; exact hleads), hs.owner_move id, ?_, ?_⟩
    · intro q j
      have hj := hs.borrowers q j
      rw [LockSystem.thread_move]
      simp only [Function.update_apply, hcredits]
      split
      · next hq =>
        subst hq
        rw [(hs.nodup q).mem_erase_iff]
        split
        · next hji => simp [hji]
        · next hji => exact ⟨fun h ↦ hj.mp h.2, fun h ↦ ⟨hji, hj.mpr h⟩⟩
      · next hq =>
        split
        · next hji =>
          rw [hji] at hj ⊢
          rw [hj, hone, List.mem_singleton]
          exact ⟨fun h ↦ absurd h hq, fun h ↦ (by cases h)⟩
        · exact hj
    · intro q
      simp only [Function.update_apply]
      split
      · exact (hs.nodup p).erase i
      · exact hs.nodup q

/-- Safe programs keep the invariant of the lock and the pools. -/
theorem lockInv_of_reachable [DecidableEq ι] [DecidableEq P] {capacity : P → Nat}
    {program : ι → Code P} (hsafe : ∀ i, (program i).safe false .none = true) {s : LockSystem ι P}
    (h : s.Reachable capacity program) : LockInv s := by
  obtain ⟨s₀, hstart, hsteps⟩ := h
  induction hsteps with
  | refl => exact lockInv_of_starts hsafe hstart
  | tail _ hstep ih => exact lockInv_step ih hstep

/-! ### Waiting -/

section

variable {capacity : P → Nat} {s : LockSystem ι P}

/-- A thread that holds a credit does not wait for the lock. -/
theorem LockInv.credits_of_blockedOnLock (hs : LockInv s) {i : ι} (h : s.BlockedOnLock i) :
    (s.thread i).credits = [] := by
  obtain ⟨⟨t, ht⟩, j, hne, hj⟩ := h
  have hleads := hs.leads i
  rw [ht] at hleads
  rcases hleads.1 with hd | hc
  · exact absurd (hs.owner j i hj hd) hne
  · exact hc

private theorem LockInv.credits_of_blockedOnPool (hs : LockInv s) {i : ι} {p : P}
    (h : s.BlockedOnPool capacity i p) : (s.thread i).credits = [] := by
  obtain ⟨⟨t, ht⟩, -⟩ := h
  have hleads := hs.leads i
  rw [ht] at hleads
  exact hleads.1

/-- A thread that others wait for waits itself only as the owner of the lock, for a credit. -/
theorem LockInv.waited_for (hs : LockInv s) {i j k : ι} (h : s.WaitsFor capacity i j)
    (h' : s.WaitsFor capacity j k) :
    s.BlockedOnLock i ∧ ∃ p, s.BlockedOnPool capacity j p ∧ p ∈ (s.thread k).credits := by
  have hcredits : (s.thread j).credits = [] := by
    rcases h' with ⟨hj, -⟩ | ⟨p, hj, -⟩
    · exact hs.credits_of_blockedOnLock hj
    · exact hs.credits_of_blockedOnPool hj
  rcases h with ⟨hi, hdepth⟩ | ⟨p, -, hp⟩
  · refine ⟨hi, ?_⟩
    rcases h' with ⟨⟨-, l, hne, hl⟩, -⟩ | hpool
    · exact absurd (hs.owner l j hl hdepth) hne
    · exact hpool
  · rw [hcredits] at hp
    cases hp

private theorem LockInv.no_chain (hs : LockInv s) {i j k l : ι} (h₁ : s.WaitsFor capacity i j)
    (h₂ : s.WaitsFor capacity j k) (h₃ : s.WaitsFor capacity k l) : False := by
  obtain ⟨-, p, hj, -⟩ := hs.waited_for h₁ h₂
  obtain ⟨⟨⟨t, ht⟩, -⟩, -⟩ := hs.waited_for h₂ h₃
  obtain ⟨⟨t', ht'⟩, -⟩ := hj
  rw [ht] at ht'
  cases ht'

/-- No thread waits for itself, through whatever others. -/
theorem LockInv.acyclic (hs : LockInv s) (i : ι) :
    ¬ Relation.TransGen (s.WaitsFor capacity) i i := by
  intro h
  obtain ⟨j, hij, hji⟩ := Relation.TransGen.head'_iff.mp h
  rcases Relation.ReflTransGen.cases_head hji with rfl | ⟨k, hjk, hki⟩
  · exact hs.no_chain hij hij hij
  · rcases Relation.ReflTransGen.cases_head hki with rfl | ⟨l, hkl, -⟩
    · exact hs.no_chain hij hjk hij
    · exact hs.no_chain hij hjk hkl

/-- A thread that owns the lock or holds a credit moves, or waits for a credit. -/
theorem LockInv.moves [DecidableEq ι] [DecidableEq P] (hs : LockInv s) {i : ι}
    (h : 0 < (s.thread i).depth ∨ (s.thread i).credits ≠ []) :
    (∃ s', LockStep capacity s s') ∨ ∃ p, s.BlockedOnPool capacity i p := by
  have hleads := hs.leads i
  cases hrest : (s.thread i).rest with
  | nil =>
    rw [hrest] at hleads
    obtain ⟨hd, hc⟩ := hleads
    rcases h with h | h
    · omega
    · exact absurd hc h
  | cons a t =>
    rw [hrest] at hleads
    cases a with
    | lock =>
      have hdepth : 0 < (s.thread i).depth := by
        rcases hleads.1 with hd | hc
        · exact hd
        · exact h.resolve_right fun hne ↦ hne hc
      refine .inl ⟨_, .lock hrest fun j hj ↦ ?_⟩
      by_contra hne
      exact hj (hs.owner j i (Nat.pos_of_ne_zero hne) hdepth)
    | unlock => exact .inl ⟨_, .unlock hrest⟩
    | take p =>
      by_cases hfree : (s.borrowers p).length < capacity p
      · exact .inl ⟨_, .take hrest hfree⟩
      · exact .inr ⟨p, ⟨t, hrest⟩, Nat.le_of_not_lt hfree⟩
    | give p => exact .inl ⟨_, .give hrest⟩

/-- While a thread has something to do, some thread moves. -/
theorem LockInv.progress [DecidableEq ι] [DecidableEq P] (hs : LockInv s)
    (hcapacity : ∀ p, 0 < capacity p) {i : ι} (h : (s.thread i).rest ≠ []) :
    ∃ s', LockStep capacity s s' := by
  have hpool : ∀ j p, s.BlockedOnPool capacity j p → ∃ s', LockStep capacity s s' := by
    intro j p ⟨_, hfull⟩
    obtain ⟨k, hk⟩ := List.exists_mem_of_length_pos (Nat.lt_of_lt_of_le (hcapacity p) hfull)
    have hcredits : (s.thread k).credits ≠ [] :=
      List.ne_nil_of_mem ((hs.borrowers p k).mp hk)
    rcases hs.moves (.inr hcredits) with hmove | ⟨q, hq⟩
    · exact hmove
    · exact absurd (hs.credits_of_blockedOnPool hq) hcredits
  obtain ⟨a, t, hrest⟩ := List.exists_cons_of_ne_nil h
  cases a with
  | lock =>
    by_cases hfree : ∀ j, j ≠ i → (s.thread j).depth = 0
    · exact ⟨_, .lock hrest hfree⟩
    · push Not at hfree
      obtain ⟨j, -, hj⟩ := hfree
      rcases hs.moves (.inl (Nat.pos_of_ne_zero hj)) with hmove | ⟨p, hp⟩
      · exact hmove
      · exact hpool j p hp
  | unlock => exact ⟨_, .unlock hrest⟩
  | take p =>
    by_cases hfree : (s.borrowers p).length < capacity p
    · exact ⟨_, .take hrest hfree⟩
    · exact hpool i p ⟨⟨t, hrest⟩, Nat.le_of_not_lt hfree⟩
  | give p => exact ⟨_, .give hrest⟩

end

end SpoolCache.Base
