import Mathlib.Data.List.Basic

/-!
# Handlers

The handlers of a play run at its end, in the order in which they are defined. One runs
when it was notified, by a task or by an earlier handler, and its condition holds then. A
handler that notifies others is taken to report a change whenever it runs.

## Main results

* `foldl_keeps`: what the handlers leave alone.
* `mem_notified_foldl`: a handler that no other one notifies is left to the tasks.
* `runHandler_of_notMem`: a handler that was not notified does not run.
-/

universe u v w

namespace Handlers

variable {N : Type u} {F : Type v} [DecidableEq N]

/-- A handler: its condition and its effect, and the handlers that it notifies. -/
structure Handler (N : Type u) (F : Type v) where
  name : N
  cond : F → Bool
  action : F → F
  notify : List N

/-- The facts of a host, and the handlers that were notified there. -/
structure Pending (N : Type u) (F : Type v) where
  notified : List N
  facts : F

/-- One handler in its turn. -/
def runHandler (p : Pending N F) (handler : Handler N F) : Pending N F :=
  if handler.name ∈ p.notified ∧ handler.cond p.facts = true then
    { notified := handler.notify ++ p.notified, facts := handler.action p.facts }
  else p

/-- The handlers of a play on one host. -/
def flush (handlers : List (Handler N F)) (p : Pending N F) : Pending N F :=
  handlers.foldl runHandler p

variable {handlers : List (Handler N F)} {handler : Handler N F} {p : Pending N F} {n : N}

/-- A handler that was not notified does not run. -/
theorem runHandler_of_notMem (h : handler.name ∉ p.notified) : runHandler p handler = p :=
  if_neg fun hrun => h hrun.1

/-- A handler that was notified and whose condition holds runs. -/
theorem runHandler_of_mem (h : handler.name ∈ p.notified) (hcond : handler.cond p.facts = true) :
    runHandler p handler =
      { notified := handler.notify ++ p.notified, facts := handler.action p.facts } :=
  if_pos ⟨h, hcond⟩

/-- **What no handler changes** is as it was. -/
theorem foldl_keeps {β : Type w} {q : F → β}
    (h : ∀ handler ∈ handlers, ∀ facts, q (handler.action facts) = q facts) (p : Pending N F) :
    q (handlers.foldl runHandler p).facts = q p.facts := by
  induction handlers generalizing p with
  | nil => rfl
  | cons handler handlers ih =>
      obtain ⟨hfirst, hrest⟩ := List.forall_mem_cons.mp h
      rw [List.foldl_cons, ih hrest, runHandler]
      split_ifs
      · exact hfirst p.facts
      · rfl

/-- **A handler that none of these notifies** is notified after them if it was before. -/
theorem mem_notified_foldl (h : ∀ handler ∈ handlers, n ∉ handler.notify) (p : Pending N F) :
    n ∈ (handlers.foldl runHandler p).notified ↔ n ∈ p.notified := by
  induction handlers generalizing p with
  | nil => rfl
  | cons handler handlers ih =>
      obtain ⟨hfirst, hrest⟩ := List.forall_mem_cons.mp h
      rw [List.foldl_cons, ih hrest, runHandler]
      split_ifs
      · rw [List.mem_append, or_iff_right hfirst]
      · rfl

end Handlers
