import Marshal.Failure
import Marshal.Notice
import Marshal.Store.Request

/-!
# Stores

A store holds reference-counted objects and answers requests.  `Store σ`
describes one with states `σ`: how it answers, how it takes back a reference,
which types it knows, and how it logs a notice.  Nothing is assumed of it, so a
store may refuse any request and may answer nonsense.

An `Action` changes the state of a store and may fail; what it did before it
failed stays done.  References are owned by bracketing: `Store.withReference` gives a
reference back whatever comes out, and `Store.building` gives it back only when
the action fails.
-/

namespace Marshal

structure Store (σ : Type) where
  answer : (request : Request) → EStateM Refusal σ request.Answer
  release : Handle → σ → σ
  types : σ → List TypeEntry
  note : Notice → σ → σ

/-- A computation on the states of a store that may fail. -/
abbrev Action (σ α : Type) := EStateM Failure σ α

namespace Store

variable {σ α : Type} (store : Store σ)

/-- Sends a request; a refusal is a failure. -/
def ask (request : Request) : Action σ request.Answer := fun s =>
  match store.answer request s with
  | .ok answer s => .ok answer s
  | .error refusal s => .error (.refused refusal) s

def log (notice : Notice) : Action σ Unit := modify (store.note notice)

/-- Runs an action on a reference and gives the reference back afterwards,
whether the action fails or not. -/
def withReference (acquire : Action σ Handle) (body : Handle → Action σ α) : Action σ α := fun s =>
  match acquire s with
  | .error e s => .error e s
  | .ok handle s =>
    match body handle s with
    | .ok a s => .ok a (store.release handle s)
    | .error e s => .error e (store.release handle s)

/-- Fills a new object and hands it on; if that fails, its reference is given
back. -/
def building (acquire : Action σ Handle) (fill : Handle → Action σ Unit) : Action σ Handle :=
  fun s =>
    match acquire s with
    | .error e s => .error e s
    | .ok handle s =>
      match fill handle s with
      | .ok () s => .ok handle s
      | .error e s => .error e (store.release handle s)

/-- The same store with fewer types in its list. -/
def without (hidden : TypeEntry → Bool) : Store σ :=
  { store with types := fun s => (store.types s).filter fun entry => !hidden entry }

end Store

/-- The outcome of a computation without effects. -/
def Result.toAction {σ α : Type} : Result α → Action σ α
  | .ok a => pure a
  | .error e => throw e

end Marshal
