namespace PageTemplate

structure Cancellation where
  /-- The signal of each token, in the order in which the tokens were made. -/
  signals : List Nat
  raised : List Nat

namespace Cancellation

def empty : Cancellation := ⟨[], []⟩

def create (state : Cancellation) : Cancellation :=
  { state with signals := state.signals ++ [state.signals.length] }

def clone (state : Cancellation) (token : Nat) : Cancellation :=
  { state with signals := state.signals ++ (state.signals[token]?).toList }

def cancel (state : Cancellation) (token : Nat) : Cancellation :=
  { state with raised := (state.signals[token]?).toList ++ state.raised }

def isCancelled (state : Cancellation) (token : Nat) : Bool :=
  match state.signals[token]? with
  | some signal => state.raised.contains signal
  | none => false

end Cancellation
end PageTemplate
