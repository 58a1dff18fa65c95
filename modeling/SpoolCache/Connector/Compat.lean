import Mathlib.Algebra.Order.BigOperators.Group.List
import Mathlib.Algebra.Order.Group.Nat
import SpoolCache.Base.Signature
import SpoolCache.Core.Values

/-!
# Substitutable overrides

`compat.py:163–325`. An override is accepted when it takes three sample calls of the base and sends
the positional arguments of the base to parameters of the same names. The samples never use a name
twice, so they miss the overrides that a caller can reach by position and by keyword at once.
-/

namespace SpoolCache.Connector

open SpoolCache.Base

/-- The arguments of a sample call; its values are fresh objects that nothing looks at. -/
structure CallShape where
  args : List Unit
  kwargs : OrderedDict String Unit

namespace CallShape

def empty : CallShape := ⟨[], .empty⟩

def addArguments (shape : CallShape) (n : Nat) : CallShape :=
  { shape with args := shape.args ++ List.replicate n () }

def addKeyword (shape : CallShape) (name : String) : CallShape :=
  { shape with kwargs := shape.kwargs.set name () }

end CallShape

/-- The keyword that stands for any other. -/
def futureKeyword : String := "__spoolcache_future_keyword__"

/-- One round of the loop, `compat.py:168–179`. -/
def minimumRound (shape : CallShape) (parameter : Parameter) : CallShape :=
  if parameter.hasDefault = true then shape
  else if parameter.isPositional = true then shape.addArguments 1
  else if parameter.kind = .keywordOnly then shape.addKeyword parameter.name
  else shape

/-- `_minimum_call_shape`, `compat.py:163–180`. -/
def minimumCallShape (signature : Signature) : CallShape :=
  signature.parameters.foldl minimumRound .empty

/-- One round of the loop, `compat.py:188–200`. -/
def maximalPositionalRound (shape : CallShape) (parameter : Parameter) : CallShape :=
  match parameter.kind with
  | .positionalOnly | .positionalOrKeyword => shape.addArguments 1
  | .keywordOnly => shape.addKeyword parameter.name
  | .varPositional => shape.addArguments 2
  | .varKeyword => shape.addKeyword futureKeyword

/-- `_maximal_positional_call_shape`, `compat.py:183–201`. -/
def maximalPositionalCallShape (signature : Signature) : CallShape :=
  signature.parameters.foldl maximalPositionalRound .empty

/-- One round of the loop, `compat.py:209–223`. -/
def maximalKeywordRound (shape : CallShape) (parameter : Parameter) : CallShape :=
  match parameter.kind with
  | .positionalOnly => shape.addArguments 1
  | .positionalOrKeyword | .keywordOnly => shape.addKeyword parameter.name
  | .varPositional => shape
  | .varKeyword => shape.addKeyword futureKeyword

/-- `_maximal_keyword_call_shape`, `compat.py:204–224`. -/
def maximalKeywordCallShape (signature : Signature) : CallShape :=
  signature.parameters.foldl maximalKeywordRound .empty

section

variable (base override : Signature) (label : String)

/-- A sample call, `compat.py:272–285`. -/
def checkShape (shape : CallShape) : Except PyError Unit :=
  match base.bind shape.args shape.kwargs with
  | .error _ => .error (.assertionError "generated an invalid base call shape")
  | .ok _ =>
    match override.bind shape.args shape.kwargs with
    | .error _ =>
      .error (.unsupportedRuntimeError (label ++ " override cannot accept vLLM call shape"))
    | .ok _ => .ok ()

/-- `arguments[name]`. -/
def argument? (arguments : List (String × Argument Nat)) (name : String) : Option (Argument Nat) :=
  (arguments.find? fun item ↦ item.1 = name).map Prod.snd

/-- The argument is the marker, or a tuple with it, `compat.py:305–312`. -/
def carries (marker : Nat) : Argument Nat → Bool
  | .value v => v = marker
  | .tuple vs => marker ∈ vs
  | .mapping _ => false

/-- The loop for `destination`, `compat.py:303–312`. -/
def destination (marker : Nat) (arguments : List (String × Argument Nat)) : Option String :=
  (arguments.find? fun item ↦ carries marker item.2).map Prod.fst

/-- One positional parameter of the base, `compat.py:301–324`. -/
def checkDestination (baseBound overrideBound : List (String × Argument Nat))
    (parameter : Parameter) : Except PyError Unit :=
  match argument? baseBound parameter.name with
  | some (.value marker) =>
    match destination marker overrideBound with
    | none => .error (.assertionError "override binding lost a positional argument")
    | some name =>
      match override.parameters.find? fun p ↦ p.name = name with
      | none => .error (.keyError name)
      | some destinationParameter =>
        if name ≠ parameter.name ∧ destinationParameter.kind ≠ .varPositional then
          .error (.unsupportedRuntimeError
            (label ++ " override reorders vLLM positional parameters"))
        else .ok ()
  | _ => .error (.keyError parameter.name)

/-- A `TypeError` that is not caught. -/
def uncaught {α : Type} : Except String α → Except PyError α
  | .ok a => .ok a
  | .error message => .error (.typeError message)

/-- The positional probe, `compat.py:287–324`; fresh objects are numbered. -/
def checkPositions : Except PyError Unit := do
  let markers := List.range base.positional.length
  let baseBound ← uncaught (base.bindPartial markers .empty)
  let overrideBound ← uncaught (override.bindPartial markers .empty)
  base.positional.forM (checkDestination override label baseBound overrideBound)

/-- `_assert_override_substitutable`, `compat.py:227–325`, of the signatures of the callables. -/
def assertOverrideSubstitutable : Except PyError Unit := do
  if base.varPositional? ≠ none ∧ override.varPositional? = none then
    .error (.unsupportedRuntimeError
      (label ++ " override cannot accept vLLM call shape (*args)"))
  else if base.varKeyword? ≠ none ∧ override.varKeyword? = none then
    .error (.unsupportedRuntimeError
      (label ++ " override cannot accept vLLM call shape (**kwargs)"))
  else do
    [minimumCallShape base, maximalPositionalCallShape base, maximalKeywordCallShape base].forM
      (checkShape base override label)
    checkPositions base override label

end

/-! ### What the claim of the check is -/

/-- Every call of the base is a call of the override, and an argument that the base binds to a
positional parameter reaches the parameter of that name, or `*args`. -/
def Substitutable (base override : Signature) : Prop :=
  ∀ (args : List Nat) (kwargs : OrderedDict String Nat) (bound : List (String × Argument Nat)),
    base.bind args kwargs = .ok bound →
    ∃ bound', override.bind args kwargs = .ok bound' ∧
      ∀ (i v : Nat) (p : Parameter), args[i]? = some v → base.positional[i]? = some p →
        (p.name, .value v) ∈ bound ∧
        ((p.name, .value v) ∈ bound' ∨ ∃ star vs, override.varPositional? = some star ∧
          (star.name, .tuple vs) ∈ bound' ∧ v ∈ vs)

/-- No parameter of the override takes by position what a call of the base may pass to the same
name as a keyword: neither the name of a positional-only parameter of the base that has `**kwargs`,
nor, behind the positional parameters of a base with `*args`, a keyword of the base. -/
def NoClash (base override : Signature) : Prop :=
  ∀ i p, override.positional[i]? = some p → p.kind = .positionalOrKeyword →
    (∀ q, base.positional[i]? = some q → q.kind = .positionalOnly → base.varKeyword? = none) ∧
    (base.positional.length ≤ i → base.varPositional? ≠ none →
      base.varKeyword? = none ∧ ∀ q ∈ base.keywordOnly, q.name ≠ p.name)

/-! ### The sample calls -/

private theorem foldl_shape (round : CallShape → Parameter → CallShape) (n : Parameter → Nat)
    (Q : Parameter → String → Prop)
    (hround : ∀ shape p, (round shape p).args.length = shape.args.length + n p ∧
      ∀ k, k ∈ (round shape p).kwargs.keys ↔ k ∈ shape.kwargs.keys ∨ Q p k)
    (parameters : List Parameter) (shape : CallShape) :
    (parameters.foldl round shape).args.length = shape.args.length + (parameters.map n).sum ∧
      ∀ k, k ∈ (parameters.foldl round shape).kwargs.keys ↔
        k ∈ shape.kwargs.keys ∨ ∃ p ∈ parameters, Q p k := by
  induction parameters generalizing shape with
  | nil => simp
  | cons p parameters ih =>
    obtain ⟨hlen, hkeys⟩ := ih (round shape p)
    obtain ⟨hlen', hkeys'⟩ := hround shape p
    constructor
    · rw [List.foldl_cons, hlen, hlen', List.map_cons, List.sum_cons, Nat.add_assoc]
    · intro k
      rw [List.foldl_cons, hkeys, hkeys', List.exists_mem_cons_iff, or_assoc]

private theorem sum_map_toNat (P : Parameter → Bool) (parameters : List Parameter) :
    (parameters.map fun p ↦ (P p).toNat).sum = parameters.countP P := by
  induction parameters with
  | nil => rfl
  | cons p parameters ih =>
    rw [List.map_cons, List.sum_cons, List.countP_cons, ih]
    cases P p <;> simp [Nat.add_comm]

/-- The added arguments are counted. -/
@[simp] theorem length_addArguments (shape : CallShape) (n : Nat) :
    (shape.addArguments n).args.length = shape.args.length + n := by
  simp [CallShape.addArguments]

/-- Added arguments leave the keywords alone. -/
@[simp] theorem kwargs_addArguments (shape : CallShape) (n : Nat) :
    (shape.addArguments n).kwargs = shape.kwargs := rfl

/-- An added keyword leaves the arguments alone. -/
@[simp] theorem args_addKeyword (shape : CallShape) (name : String) :
    (shape.addKeyword name).args = shape.args := rfl

/-- The keywords after one is added. -/
@[simp] theorem mem_addKeyword (shape : CallShape) (name k : String) :
    k ∈ (shape.addKeyword name).kwargs.keys ↔ k ∈ shape.kwargs.keys ∨ k = name := by
  simp [CallShape.addKeyword, OrderedDict.mem_keys_set, or_comm]

/-- The shortest call gives the required places and the required keywords. -/
theorem minimumCallShape_spec (s : Signature) :
    (minimumCallShape s).args.length = s.positional.countP (fun p ↦ !p.hasDefault) ∧
      ∀ k ∈ (minimumCallShape s).kwargs.keys,
        ∃ p ∈ s.keywordOnly, p.hasDefault = false ∧ k = p.name := by
  have hround : ∀ (shape : CallShape) (p : Parameter), (minimumRound shape p).args.length =
      shape.args.length + (!p.hasDefault && p.isPositional).toNat ∧
      ∀ k, k ∈ (minimumRound shape p).kwargs.keys ↔ k ∈ shape.kwargs.keys ∨
        (p.hasDefault = false ∧ p.kind = .keywordOnly ∧ k = p.name) := by
    intro shape p
    unfold minimumRound
    cases hd : p.hasDefault <;> cases hk : p.kind <;> simp [Parameter.isPositional, hk]
  obtain ⟨hlen, hkeys⟩ := foldl_shape _ _ _ hround s.parameters .empty
  constructor
  · rw [Signature.countP_positional, ← sum_map_toNat, minimumCallShape, hlen]
    simp [CallShape.empty]
  · intro k hk
    rw [minimumCallShape, hkeys] at hk
    rcases hk with hk | ⟨p, hp, hd, hkind, hname⟩
    · simp [CallShape.empty] at hk
    · exact ⟨p, Signature.mem_keywordOnly.mpr ⟨hp, hkind⟩, hd, hname⟩

/-- The longest positional call fills every place. -/
theorem length_maximalPositionalCallShape (s : Signature) :
    s.positional.length ≤ (maximalPositionalCallShape s).args.length := by
  have hround : ∀ (shape : CallShape) (p : Parameter),
      (maximalPositionalRound shape p).args.length = shape.args.length +
        (p.isPositional.toNat + if p.kind = .varPositional then 2 else 0) ∧
      ∀ k, k ∈ (maximalPositionalRound shape p).kwargs.keys ↔ k ∈ shape.kwargs.keys ∨
        (p.kind = .keywordOnly ∧ k = p.name ∨ p.kind = .varKeyword ∧ k = futureKeyword) := by
    intro shape p
    unfold maximalPositionalRound
    cases hk : p.kind <;> simp [Parameter.isPositional, hk]
  obtain ⟨hlen, -⟩ := foldl_shape _ _ _ hround s.parameters .empty
  have hle : (s.parameters.map fun p ↦ p.isPositional.toNat).sum ≤ (s.parameters.map fun p ↦
      p.isPositional.toNat + if p.kind = .varPositional then 2 else 0).sum := by
    apply List.sum_le_sum
    exact fun p _ ↦ Nat.le_add_right _ _
  rw [sum_map_toNat, List.countP_eq_length_filter] at hle
  rw [maximalPositionalCallShape, hlen]
  exact Nat.le_trans hle (Nat.le_add_left _ _)

/-- The longest keyword call names every parameter that a name can fill. -/
theorem maximalKeywordCallShape_spec (s : Signature) :
    (maximalKeywordCallShape s).args.length =
        s.positional.countP (fun p ↦ p.kind = .positionalOnly) ∧
      ∀ p ∈ s.parameters, p.isNamed = true → p.name ∈ (maximalKeywordCallShape s).kwargs.keys := by
  have hround : ∀ (shape : CallShape) (p : Parameter),
      (maximalKeywordRound shape p).args.length = shape.args.length +
        (decide (p.kind = .positionalOnly) && p.isPositional).toNat ∧
      ∀ k, k ∈ (maximalKeywordRound shape p).kwargs.keys ↔ k ∈ shape.kwargs.keys ∨
        (p.isNamed = true ∧ k = p.name ∨ p.kind = .varKeyword ∧ k = futureKeyword) := by
    intro shape p
    unfold maximalKeywordRound
    cases hk : p.kind <;> simp [Parameter.isPositional, Parameter.isNamed, hk]
  obtain ⟨hlen, hkeys⟩ := foldl_shape _ _ _ hround s.parameters .empty
  constructor
  · rw [Signature.countP_positional, ← sum_map_toNat, maximalKeywordCallShape, hlen]
    simp [CallShape.empty]
  · intro p hp hnamed
    rw [maximalKeywordCallShape, hkeys]
    exact .inr ⟨p, hp, .inl ⟨hnamed, rfl⟩⟩

end SpoolCache.Connector
