import NearField.Error

/-! # Work on a state

Operations of the emulator change a state step by step and can fail half-way. A failure does not
undo the steps before it: the state stays as far as it was changed.
-/
namespace NearField.Emulator

abbrev Work (σ : Type) := EStateM Error σ

namespace Work
variable {σ τ α : Type}

/-- Work on a part of the state, which is put back however the work ends. -/
def on (part : σ → τ) (put : σ → τ → σ) (work : Work τ α) : Work σ α := fun s =>
  match work.run (part s) with
  | .ok a t => .ok a (put s t)
  | .error e t => .error e (put s t)

def onFst (work : Work σ α) : Work (σ × τ) α := on Prod.fst (fun s t => (t, s.2)) work

def onSnd (work : Work τ α) : Work (σ × τ) α := on Prod.snd (fun s t => (s.1, t)) work

def scope (operation : Operation) (work : Work σ α) : Work σ α :=
  work.adaptExcept (Error.failed operation)

@[simp] theorem run_ofExcept_ok (a : α) (s : σ) :
    EStateM.run (ofExcept (Except.ok a) : Work σ α) s = .ok a s := rfl

@[simp] theorem run_ofExcept_error (e : Error) (s : σ) :
    EStateM.run (ofExcept (Except.error e) : Work σ α) s = .error e s := rfl

@[simp] theorem run_fail (e : Error) (s : σ) :
    EStateM.run (throw e : Work σ α) s = .error e s := rfl

@[simp] theorem run_map {β : Type} (f : α → β) (work : Work σ α) (s : σ) :
    EStateM.run (f <$> work) s = match work.run s with
      | .ok a s => .ok (f a) s
      | .error e s => .error e s := by
  simp only [EStateM.run, Functor.map, EStateM.map]
  cases work s <;> rfl

@[simp] theorem run_discard (work : Work σ α) (s : σ) :
    EStateM.run (discard work) s = match work.run s with
      | .ok _ s => .ok () s
      | .error e s => .error e s := run_map _ work s

@[simp] theorem run_on (part : σ → τ) (put : σ → τ → σ) (work : Work τ α) (s : σ) :
    (on part put work).run s = match work.run (part s) with
      | .ok a t => .ok a (put s t)
      | .error e t => .error e (put s t) := rfl

@[simp] theorem run_onFst (work : Work σ α) (s : σ × τ) :
    (onFst work).run s = match work.run s.1 with
      | .ok a t => .ok a (t, s.2)
      | .error e t => .error e (t, s.2) := rfl

@[simp] theorem run_onSnd (work : Work τ α) (s : σ × τ) :
    (onSnd work).run s = match work.run s.2 with
      | .ok a t => .ok a (s.1, t)
      | .error e t => .error e (s.1, t) := rfl

@[simp] theorem run_scope (operation : Operation) (work : Work σ α) (s : σ) :
    (scope operation work).run s = match work.run s with
      | .ok a s => .ok a s
      | .error e s => .error (.failed operation e) s := by
  rw [scope, EStateM.run_adaptExcept]
  cases work.run s <;> rfl

end Work
end NearField.Emulator
