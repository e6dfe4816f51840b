/-
# Store.Retry -- asking a backend again

`retry` makes a call until it has a decisive outcome or the attempts are used
up.  Only a temporary failure is not decisive, so the last outcome is answered
unchanged (`retry_one`, `retry_decisive`).
-/
import PropertyGraph.Fault

namespace PropertyGraph

set_option autoImplicit false

variable {σ α : Type}

/-- Worth another attempt. -/
def isIndecisive : Outcome α → Bool
  | .error fault => fault.isTemporary
  | .ok _ => false

/-- One call, and up to `more` further calls while the outcome is indecisive. -/
def retryMore (call : σ → Outcome α × σ) : Nat → σ → Outcome α × σ
  | 0, s => call s
  | more + 1, s =>
      let (outcome, after) := call s
      if isIndecisive outcome then retryMore call more after else (outcome, after)

/-- At most `attempts` calls; zero counts as one. -/
def retry (attempts : Nat) (call : σ → Outcome α × σ) (s : σ) : Outcome α × σ :=
  retryMore call (attempts - 1) s

theorem retry_one (call : σ → Outcome α × σ) (s : σ) : retry 1 call s = call s := rfl

/-- A decisive first outcome ends the matter. -/
theorem retry_decisive (attempts : Nat) (call : σ → Outcome α × σ) (s : σ)
    (decisive : isIndecisive (call s).1 = false) : retry attempts call s = call s := by
  unfold retry
  cases attempts - 1 with
  | zero => rfl
  | succ more => simp [retryMore, decisive]

end PropertyGraph
