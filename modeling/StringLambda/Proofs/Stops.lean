import StringLambda.Machine

namespace StringLambda

/-! Which stops end an action. -/

namespace Stop

/-- Faults that the language accounts for; the others, and a bound that is used up, are none. -/
def isAccounted : Stop → Bool
  | .fault f => f.isAccounted
  | .unfinished => false

def isCompileError : Stop → Bool
  | .fault (.source _) | .fault (.compile _) => true
  | _ => false

theorem isCompileError_located (place : Option Position) (stop : Stop) :
    (stop.located place).isCompileError = stop.isCompileError := by
  cases stop with
  | unfinished => rfl
  | fault f =>
      cases f with
      | evaluation issue place => cases place <;> rfl
      | _ => rfl

end Stop

variable {σ α β : Type}

def stopOf : EStateM.Result Stop σ α → Option Stop
  | .ok _ _ => none
  | .error stop _ => some stop

theorem stopOf_bind_of_some {act : EStateM Stop σ α} {stop : Stop} {s : σ}
    (h : stopOf (act s) = some stop) (f : α → EStateM Stop σ β) :
    stopOf ((act >>= f) s) = some stop := by
  simp only [Bind.bind, EStateM.bind]
  cases hact : act s with
  | ok a t =>
      rw [hact] at h
      cases h
  | error other t =>
      rw [hact] at h
      exact h

def Avoids (kind : Stop → Bool) (act : EStateM Stop σ α) : Prop :=
  ∀ s, (stopOf (act s)).any kind = false

namespace Avoids

variable {kind : Stop → Bool} {act : EStateM Stop σ α}

theorem pure (a : α) : Avoids kind (Pure.pure a : EStateM Stop σ α) := fun _ => rfl

theorem throw {stop : Stop} (h : kind stop = false) :
    Avoids kind (MonadExcept.throw stop : EStateM Stop σ α) := fun _ => h

theorem bind {f : α → EStateM Stop σ β} (hact : Avoids kind act) (hf : ∀ a, Avoids kind (f a)) :
    Avoids kind (act >>= f) := by
  intro s
  have hstop := hact s
  simp only [Bind.bind, EStateM.bind]
  cases h : act s with
  | ok a n => exact hf a n
  | error stop n =>
      rw [h] at hstop
      exact hstop

end Avoids

end StringLambda
