import Mathlib.Data.List.Forall2

namespace WordMachine

/-! Computations and traversals that stop at the first failure. -/

variable {α β ε : Type} {f : α → Except ε β}

theorem bind_eq_ok_iff {first : Except ε α} {output : β} :
    first >>= f = .ok output ↔
      ∃ middle, first = .ok middle ∧ f middle = .ok output := by
  cases first with
  | error failure => simp [bind, Except.bind]
  | ok middle => simp [bind, Except.bind]

theorem check_bind_eq_ok_iff {check : Except ε Unit} {next : Unit → Except ε β}
    {output : β} :
    check >>= next = .ok output ↔ check = .ok () ∧ next () = .ok output := by
  rw [bind_eq_ok_iff]
  exact ⟨fun ⟨(), passed⟩ => passed, fun passed => ⟨(), passed⟩⟩

section MapError

variable {δ : Type} {result : Except ε α} {rewrite : ε → δ}

theorem mapError_eq_ok_iff {output : α} :
    result.mapError rewrite = .ok output ↔ result = .ok output := by
  cases result with
  | error failure => simp [Except.mapError]
  | ok found => simp [Except.mapError]

theorem mapError_eq_error_iff {failure : δ} :
    result.mapError rewrite = .error failure ↔
      ∃ cause, result = .error cause ∧ rewrite cause = failure := by
  cases result with
  | error cause => simp [Except.mapError]
  | ok found => simp [Except.mapError]

end MapError

theorem mapM_eq_ok_iff_forall₂ {inputs : List α} {outputs : List β} :
    inputs.mapM f = .ok outputs ↔
      List.Forall₂ (fun input output => f input = .ok output) inputs outputs := by
  induction inputs generalizing outputs with
  | nil =>
      rw [List.mapM_nil, List.forall₂_nil_left_iff]
      exact ⟨fun same => (Except.ok.inj same).symm, fun empty => empty ▸ rfl⟩
  | cons first rest induction =>
      simp only [List.mapM_cons, List.forall₂_cons_left_iff, bind_eq_ok_iff,
        ← induction, pure, Except.pure, Except.ok.injEq]
      constructor
      · intro traversed
        obtain ⟨output, head, others, tail, rfl⟩ := traversed
        exact ⟨output, others, head, tail, rfl⟩
      · intro related
        obtain ⟨output, others, head, tail, rfl⟩ := related
        exact ⟨output, head, others, tail, rfl⟩

theorem getElem?_of_mapM_eq_ok {inputs : List α} {outputs : List β}
    (traversed : inputs.mapM f = .ok outputs) {index : Nat} {input : α}
    (found : inputs[index]? = some input) :
    ∃ output, outputs[index]? = some output ∧ f input = .ok output := by
  have related := mapM_eq_ok_iff_forall₂.mp traversed
  obtain ⟨inside, rfl⟩ := List.getElem?_eq_some_iff.mp found
  have inside' : index < outputs.length := related.length_eq ▸ inside
  exact ⟨outputs[index], List.getElem?_eq_getElem inside',
    related.get inside inside'⟩

theorem length_of_mapM_eq_ok {inputs : List α} {outputs : List β}
    (traversed : inputs.mapM f = .ok outputs) :
    outputs.length = inputs.length :=
  (mapM_eq_ok_iff_forall₂.mp traversed).length_eq.symm

theorem exists_mapM_eq_ok_iff {inputs : List α} :
    (∃ outputs, inputs.mapM f = .ok outputs) ↔
      ∀ input ∈ inputs, ∃ output, f input = .ok output := by
  constructor
  · intro traversal input member
    obtain ⟨outputs, traversed⟩ := traversal
    obtain ⟨index, found⟩ := List.mem_iff_getElem?.mp member
    obtain ⟨output, _, computed⟩ := getElem?_of_mapM_eq_ok traversed found
    exact ⟨output, computed⟩
  · intro each
    induction inputs with
    | nil => exact ⟨[], rfl⟩
    | cons first rest induction =>
        obtain ⟨output, head⟩ := each first List.mem_cons_self
        obtain ⟨others, tail⟩ := induction fun input member =>
          each input (List.mem_cons_of_mem first member)
        refine ⟨output :: others, ?_⟩
        rw [List.mapM_cons, head, tail]
        rfl

theorem mapM_cons_eq_error_iff {first : α} {rest : List α} {failure : ε} :
    (first :: rest).mapM f = .error failure ↔
      f first = .error failure ∨
        ∃ output, f first = .ok output ∧ rest.mapM f = .error failure := by
  rw [List.mapM_cons]
  cases f first with
  | error cause => simp [bind, Except.bind]
  | ok output =>
      cases rest.mapM f with
      | error cause => simp [bind, Except.bind]
      | ok others => simp [bind, Except.bind, pure, Except.pure]

/-- A traversal fails at the first input whose step fails. -/
theorem mapM_eq_error_iff {inputs : List α} {failure : ε} :
    inputs.mapM f = .error failure ↔
      ∃ index input, inputs[index]? = some input ∧ f input = .error failure ∧
        ∀ earlier ∈ inputs.take index, ∃ output, f earlier = .ok output := by
  induction inputs with
  | nil => simp [pure, Except.pure]
  | cons first rest induction =>
      rw [mapM_cons_eq_error_iff, induction]
      constructor
      · rintro (failed | ⟨output, head, index, input, found, failed, before⟩)
        · exact ⟨0, first, rfl, failed, List.forall_mem_nil _⟩
        · exact ⟨index + 1, input, found, failed,
            List.forall_mem_cons.mpr ⟨⟨output, head⟩, before⟩⟩
      · rintro ⟨index, input, found, failed, before⟩
        cases index with
        | zero =>
            cases found
            exact .inl failed
        | succ index =>
            obtain ⟨⟨output, head⟩, others⟩ := List.forall_mem_cons.mp before
            exact .inr ⟨output, head, index, input, found, failed, others⟩

theorem mapM_append_of_ok {front back : List α} {outputs : List β}
    (traversed : front.mapM f = .ok outputs) :
    (front ++ back).mapM f = (back.mapM f).map (outputs ++ ·) := by
  rw [List.mapM_append, traversed]
  cases back.mapM f with
  | error failure => rfl
  | ok others => rfl

theorem mapM_append_of_error {front back : List α} {failure : ε}
    (failed : front.mapM f = .error failure) :
    (front ++ back).mapM f = .error failure := by
  rw [List.mapM_append, failed]
  rfl

private theorem mapM_mapError {δ : Type} (rewrite : ε → δ) (inputs : List α) :
    (inputs.mapM fun input => (f input).mapError rewrite) =
      (inputs.mapM f).mapError rewrite := by
  induction inputs with
  | nil => rfl
  | cons first rest induction =>
      rw [List.mapM_cons, List.mapM_cons, induction]
      cases f first with
      | error failure => rfl
      | ok output =>
          cases rest.mapM f with
          | error failure => rfl
          | ok others => rfl

theorem mapM_map_mapError {rewrite : ε → ε} {move : α → α}
    (steps : ∀ input, f (move input) = (f input).mapError rewrite) (inputs : List α) :
    (inputs.map move).mapM f = (inputs.mapM f).mapError rewrite := by
  rw [List.mapM_map, ← mapM_mapError]
  exact congrArg inputs.mapM (funext steps)

theorem mapM_eq_ok_congr {γ δ : Type} {g : γ → Except δ β} {inputs : List α}
    {inputs' : List γ} {outputs : List β}
    (alike : List.Forall₂ (fun input input' => ∀ output,
      f input = .ok output ↔ g input' = .ok output) inputs inputs') :
    inputs.mapM f = .ok outputs ↔ inputs'.mapM g = .ok outputs := by
  induction alike generalizing outputs with
  | nil =>
      rw [List.mapM_nil, List.mapM_nil]
      exact ⟨fun same => congrArg _ (Except.ok.inj same),
        fun same => congrArg _ (Except.ok.inj same)⟩
  | cons head _ induction =>
      simp only [List.mapM_cons, bind_eq_ok_iff, head, induction, pure, Except.pure,
        Except.ok.injEq]

theorem mapM_zipIdx_eq_ok {place : β × Nat → α}
    (back : ∀ entry, f (place entry) = .ok entry.1) (items : List β)
    (start : Nat) :
    ((items.zipIdx start).map place).mapM f = .ok items := by
  rw [mapM_eq_ok_iff_forall₂, List.forall₂_map_left_iff]
  conv =>
    rhs
    rw [← List.zipIdx_map_fst start items]
  rw [List.forall₂_map_right_iff, List.forall₂_same]
  intro entry _
  exact back entry

end WordMachine
