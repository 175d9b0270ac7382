import Mathlib.Logic.Basic

/-!
# Plays

A play runs its tasks one after the other on a list of hosts, and each host has facts of
its own. An ordinary task reads the facts of a host and changes the facts of that host
(`each`). A `run_once` task is decided and computed on the first host of the play alone;
unless it is skipped there, its result becomes a fact of every host (`once`).

## Main results

* `each_of_mem`: the facts of a host after an ordinary task.
* `once_of_skip`, `once_of_run`: the two outcomes of a `run_once` task.
-/

universe u v w

namespace Plays

variable {H : Type u} {F : Type v} {R : Type w} [DecidableEq H]

/-- An ordinary task. -/
def each (hosts : List H) (task : H → F → F) (facts : H → F) : H → F :=
  fun h => if h ∈ hosts then task h (facts h) else facts h

/-- A `run_once` task: its result on the first host, or `none` when its condition fails
there, and how a host records the result. -/
def once (hosts : List H) (task : H → F → Option R) (record : R → F → F) (facts : H → F) :
    H → F :=
  match hosts with
  | [] => facts
  | first :: _ =>
    match task first (facts first) with
    | none => facts
    | some result => each hosts (fun _ => record result) facts

variable {hosts : List H} {facts : H → F} {h : H}

/-- A task changes the facts of the hosts of the play. -/
theorem each_of_mem {task : H → F → F} (hmem : h ∈ hosts) :
    each hosts task facts h = task h (facts h) :=
  if_pos hmem

variable {task : H → F → Option R} {record : R → F → F} {first : H} {rest : List H}

/-- A `run_once` task that is skipped on the first host is skipped altogether. -/
theorem once_of_skip (hskip : task first (facts first) = none) :
    once (first :: rest) task record facts = facts := by
  simp only [once, hskip]

/-- **A `run_once` task that runs on the first host** gives its result to every host. -/
theorem once_of_run {result : R} (hrun : task first (facts first) = some result)
    (hmem : h ∈ first :: rest) :
    once (first :: rest) task record facts h = record result (facts h) := by
  simp only [once, hrun]
  exact each_of_mem hmem

end Plays
