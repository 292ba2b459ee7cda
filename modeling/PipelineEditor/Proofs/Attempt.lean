import Mathlib.Order.Defs.Unbundled
import PipelineEditor.Error

/-!
# Running attempts

An attempt is followed from the state it starts in: `exec` of each way to build one, and the
relations between first and last state that all of these ways keep.

## Main definitions

* `Attempt.Keeps R attempt`: the attempt leads from every state to an `R`-related one, whether it
  succeeds or fails

## Main results

* `Attempt.exec_bind`, `Attempt.exec_tryCatch`: sequencing and handling, state by state
* `Attempt.Keeps.bind`, `Attempt.Keeps.tryCatch`, `Attempt.Keeps.forM`: what the parts of an
  attempt keep, the whole keeps
-/

namespace PipelineEditor

/-- A sequence of checks passes where both of its parts do. -/
theorem bind_eq_ok_iff {ε α β : Type} {result : Except ε α} {next : α → Except ε β} {value : β} :
    result >>= next = .ok value ↔ ∃ first, result = .ok first ∧ next first = .ok value := by
  cases result with
  | error cause => simp [bind, Except.bind]
  | ok first => simp [bind, Except.bind]

namespace Attempt

variable {σ α β : Type}

/-! ## Execution -/

@[simp] theorem exec_of (step : σ → Except EditError α × σ) (s : σ) :
    (of step).exec s = step s := rfl

@[simp] theorem exec_check (result : Except EditError α) (s : σ) :
    (check result : Attempt σ α).exec s = (result, s) := by
  cases result <;> rfl

theorem exec_bind (attempt : Attempt σ α) (next : α → Attempt σ β) (s : σ) :
    (attempt >>= next).exec s =
      match attempt.exec s with
      | (.ok value, s') => (next value).exec s'
      | (.error cause, s') => (.error cause, s') := by
  -- The two monads are opened here and in `exec_tryCatch`; all else goes by `exec`.
  rw [exec, exec, ExceptT.run_bind, StateT.run_bind]
  rcases attempt.run.run s with ⟨_ | value, s'⟩ <;> rfl

theorem exec_tryCatch (attempt : Attempt σ α) (handler : EditError → Attempt σ α) (s : σ) :
    (tryCatch attempt handler).exec s =
      match attempt.exec s with
      | (.ok value, s') => (.ok value, s')
      | (.error cause, s') => (handler cause).exec s' := by
  simp only [tryCatch, tryCatchThe, MonadExceptOf.tryCatch, ExceptT.tryCatch, exec,
    ExceptT.run_mk]
  rw [StateT.run_bind]
  unfold ExceptT.run
  rcases StateT.run attempt s with ⟨_ | value, s'⟩ <;> rfl

/-- Sequencing after a success. -/
theorem exec_bind_ok {attempt : Attempt σ α} {next : α → Attempt σ β} {s s' : σ} {value : α}
    (h : attempt.exec s = (.ok value, s')) : (attempt >>= next).exec s = (next value).exec s' := by
  rw [exec_bind, h]

/-- Sequencing after a failure. -/
theorem exec_bind_error {attempt : Attempt σ α} {next : α → Attempt σ β} {s s' : σ}
    {cause : EditError} (h : attempt.exec s = (.error cause, s')) :
    (attempt >>= next).exec s = (.error cause, s') := by
  rw [exec_bind, h]

/-- A sequence succeeds where both of its parts do. -/
theorem exec_bind_eq_ok_iff {attempt : Attempt σ α} {next : α → Attempt σ β} {s s'' : σ}
    {result : β} : (attempt >>= next).exec s = (.ok result, s'') ↔
      ∃ value s', attempt.exec s = (.ok value, s') ∧ (next value).exec s' = (.ok result, s'') := by
  rw [exec_bind]
  rcases attempt.exec s with ⟨cause | value, s'⟩
  · constructor
    · intro h
      cases h
    · rintro ⟨_, _, h, -⟩
      cases h
  · constructor
    · intro h
      exact ⟨value, s', rfl, h⟩
    · rintro ⟨_, _, h, hnext⟩
      cases h
      exact hnext

@[simp] theorem exec_get_bind (next : σ → Attempt σ β) (s : σ) :
    (get >>= next).exec s = (next s).exec s := rfl

@[simp] theorem exec_set_bind (t : σ) (next : PUnit → Attempt σ β) (s : σ) :
    (set t >>= next).exec s = (next ⟨⟩).exec t := rfl

theorem exec_check_bind (result : Except EditError α) (next : α → Attempt σ β) (s : σ) :
    (check result >>= next).exec s =
      match result with
      | .ok value => (next value).exec s
      | .error cause => (.error cause, s) := by
  cases result <;> rfl

/-! ## What attempts keep -/

/-- **The attempt keeps the relation**: it leads from every state to a related one, whether it
succeeds or fails. -/
def Keeps (R : σ → σ → Prop) (attempt : Attempt σ α) : Prop :=
  ∀ s, R s (attempt.exec s).2

namespace Keeps

variable {R : σ → σ → Prop}

section

variable [Std.Refl R]

theorem pure (value : α) : Keeps R (pure value) := fun s => refl_of R s

theorem throw (cause : EditError) : Keeps R (throw cause : Attempt σ α) := fun s => refl_of R s

end

/-- A state may be looked at before the attempt goes on. -/
theorem read {next : σ → Attempt σ β} (h : ∀ s, Keeps R (next s)) : Keeps R (get >>= next) :=
  fun s => h s s

theorem ite {c : Prop} [Decidable c] {attempt other : Attempt σ α} (h : Keeps R attempt)
    (h' : Keeps R other) : Keeps R (if c then attempt else other) := by
  split
  · exact h
  · exact h'

variable [IsTrans σ R]

theorem bind {attempt : Attempt σ α} {next : α → Attempt σ β} (h : Keeps R attempt)
    (hnext : ∀ value, Keeps R (next value)) : Keeps R (attempt >>= next) := by
  intro s
  have hs := h s
  rw [exec_bind]
  rcases hexec : attempt.exec s with ⟨_ | value, s'⟩ <;> rw [hexec] at hs
  · exact hs
  · exact trans_of R hs (hnext value s')

theorem tryCatch {attempt : Attempt σ α} {handler : EditError → Attempt σ α}
    (h : Keeps R attempt) (hhandler : ∀ cause, Keeps R (handler cause)) :
    Keeps R (tryCatch attempt handler) := by
  intro s
  have hs := h s
  rw [exec_tryCatch]
  rcases hexec : attempt.exec s with ⟨cause | _, s'⟩ <;> rw [hexec] at hs
  · exact trans_of R hs (hhandler cause s')
  · exact hs

theorem forM [Std.Refl R] {items : List α} {step : α → Attempt σ PUnit}
    (h : ∀ item ∈ items, Keeps R (step item)) : Keeps R (items.forM step) := by
  induction items with
  | nil => exact pure _
  | cons item rest ih =>
    exact bind (h item List.mem_cons_self) fun _ =>
      ih fun other hmem => h other (List.mem_cons_of_mem _ hmem)

theorem mapM [Std.Refl R] {items : List α} {step : α → Attempt σ β}
    (h : ∀ item ∈ items, Keeps R (step item)) : Keeps R (items.mapM step) := by
  induction items with
  | nil => exact pure _
  | cons item rest ih =>
    rw [List.mapM_cons]
    refine bind (h item List.mem_cons_self) fun _ => bind ?_ fun _ => pure _
    exact ih fun other hmem => h other (List.mem_cons_of_mem _ hmem)

end Keeps

end Attempt

end PipelineEditor
