/-
  Placement/Traced.lean
  =====================
  **Values together with what was observable on the way.**

  A computation here has no side effects.  What an observer would see of it while it
  runs (a log line, a call to a mesh) is an *event*, and a traced value carries its
  events in order.
-/

namespace Placement

/-- A value and the events that led to it, first one first. -/
structure Traced (ε β : Type) where
  value : β
  events : List ε

namespace Traced

variable {ε β γ : Type}

def quiet (b : β) : Traced ε β := ⟨b, []⟩

def emit (e : ε) : Traced ε Unit := ⟨(), [e]⟩

def emitAll (es : List ε) : Traced ε Unit := ⟨(), es⟩

/-- The events as those of a wider kind. -/
def mapEvents {ε' : Type} (f : ε → ε') (t : Traced ε β) : Traced ε' β :=
  ⟨t.value, t.events.map f⟩

/-- Go on with the value; the events of both parts follow each other. -/
def andThen (t : Traced ε β) (f : β → Traced ε γ) : Traced ε γ :=
  let u := f t.value
  ⟨u.value, t.events ++ u.events⟩

instance : Monad (Traced ε) where
  pure := quiet
  bind := andThen

@[simp] theorem value_pure (b : β) : (pure b : Traced ε β).value = b := rfl

@[simp] theorem events_pure (b : β) : (pure b : Traced ε β).events = [] := rfl

@[simp] theorem value_bind (t : Traced ε β) (f : β → Traced ε γ) :
    (t >>= f).value = (f t.value).value := rfl

@[simp] theorem events_bind (t : Traced ε β) (f : β → Traced ε γ) :
    (t >>= f).events = t.events ++ (f t.value).events := rfl

@[simp] theorem value_emit (e : ε) : (emit e).value = () := rfl

@[simp] theorem events_emit (e : ε) : (emit e).events = [e] := rfl

/-- Put two values together; what led to the second one stands behind. -/
def merge {δ : Type} (f : β → γ → δ) (t : Traced ε β) (u : Traced ε γ) : Traced ε δ :=
  ⟨f t.value u.value, t.events ++ u.events⟩

/-- Go through a list and keep what comes of its items. -/
def sift (f : β → Traced ε (Option γ)) : List β → Traced ε (List γ)
  | [] => quiet []
  | x :: xs => do
    let y? ← f x
    let ys ← sift f xs
    return y?.toList ++ ys

theorem value_sift (f : β → Traced ε (Option γ)) (xs : List β) :
    (sift f xs).value = xs.filterMap fun x => (f x).value := by
  induction xs with
  | nil => rfl
  | cons x xs ih =>
    rw [sift, value_bind, value_bind, value_pure, ih, List.filterMap_cons]
    cases (f x).value with
    | none => rfl
    | some y => rfl

theorem events_sift (f : β → Traced ε (Option γ)) (xs : List β) :
    (sift f xs).events = xs.flatMap fun x => (f x).events := by
  induction xs with
  | nil => rfl
  | cons x xs ih =>
    rw [sift, events_bind, events_bind, events_pure, ih, List.append_nil, List.flatMap_cons]

end Traced

end Placement
