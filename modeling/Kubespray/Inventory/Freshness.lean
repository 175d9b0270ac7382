import Kubespray.Inventory.Assigned
import Kubespray.Inventory.HostIds

/-!
# Generated Names Are New

The builder numbers the hostnames that it generates from a counter, which it sets once,
before the first argument, above every number that it reads from the names of the file. The
counter only moves up, so the names of one run differ from each other. They differ from the
names of the file because a name that continues the numbering would have been read back
with its number or a higher one.

## Main results

* `generatedNames_eq_range'`: the generated names of a walk are numbered one after the other.
* `generatedNames_fresh`: they are no names of the file, and no two of them are the same.
-/

namespace Kubespray.Inventory

open Fallible

variable {env : Env}

/-- The hostnames that the loop generates on some arguments, in order. -/
def generatedNames (env : Env) : Except Abort Walk → List Text → List Text
  | _, [] => []
  | w, t :: ts =>
    (match w with
      | .ok w =>
        if startsWithDigit env t then ((assigned env w t).map HostAssignment.name).toList else []
      | .error _ => []) ++ generatedNames env (w >>= fun w => stepHost env w t) ts

/-- A walk that was aborted generates nothing. -/
theorem generatedNames_error (e : Abort) (ts : List Text) :
    generatedNames env (.error e) ts = [] := by
  induction ts with
  | nil => rfl
  | cons t ts ih => exact ih

/-- An address is assigned to the next generated name. -/
theorem assigned_name_of_digit {w : Walk} {t : Text} {a : HostAssignment}
    (hreal : env.useRealHostname = false) (hdigit : startsWithDigit env t = true)
    (ha : assigned env w t = some a) : a.name = generatedName env w.nextHostId := by
  obtain ⟨-, -, -, w₁, hunpack, -, -, hname⟩ := assigned_eq_some_iff.mp ha
  rw [chosenName, if_pos hdigit, nextGenerated, if_neg (by simp [hreal])] at hname
  rw [← (unpacked_keeps hunpack).2.1]
  exact (Option.some.inj hname).symm

/-- **The generated names of a walk** are numbered one after the other, from the counter
on. -/
theorem generatedNames_eq_range' (hreal : env.useRealHostname = false) (w : Walk)
    (args : List Text) :
    ∃ k, generatedNames env (.ok w) args
      = (List.range' w.nextHostId k).map (generatedName env) := by
  induction args generalizing w with
  | nil => exact ⟨0, rfl⟩
  | cons t ts ih =>
      rw [generatedNames, ok_bind]
      cases hstep : stepHost env w t with
      | error e =>
          have hnone : assigned env w t = none := by
            by_contra hne
            obtain ⟨a, ha⟩ := Option.ne_none_iff_exists'.mp hne
            obtain ⟨w', hok, -⟩ := stepHost_of_assigned ha
            rw [hstep] at hok
            cases hok
          refine ⟨0, ?_⟩
          rw [generatedNames_error, hnone, Option.map_none, Option.toList_none, ite_self]
          rfl
      | ok w' =>
          obtain ⟨k, hk⟩ := ih w'
          have hid := nextHostId_stepHost hreal hstep
          rw [hk, hid]
          by_cases hdigit : startsWithDigit env t = true
          · cases ha : assigned env w t with
            | none => exact ⟨k, by simp⟩
            | some a =>
                refine ⟨k + 1, ?_⟩
                rw [if_pos hdigit, if_pos ⟨hdigit, rfl⟩, Option.map_some,
                  assigned_name_of_digit hreal hdigit ha, List.range'_succ, List.map_cons]
                rfl
          · refine ⟨k, ?_⟩
            rw [if_neg hdigit, if_neg fun h => hdigit h.1, List.nil_append]

/-- **Generated names are new**: whatever the arguments are, the names that a run generates
are not in the host map that it starts from, and no two of them are the same, when the
prefix has no dot and names are not asked for. -/
theorem generatedNames_fresh {cfg : Config} {loadPreviousConfig : Bool} {highest : ℕ}
    {hosts : OrderedDict Text Value} (hdot : '.' ∉ env.hostPrefix)
    (hreal : env.useRealHostname = false)
    (hload : existingHosts env cfg loadPreviousConfig = .ok (hosts, highest))
    (args : List Text) :
    (generatedNames env (startWalk env cfg loadPreviousConfig) args).Nodup ∧
      ∀ name ∈ generatedNames env (startWalk env cfg loadPreviousConfig) args,
        name ∉ hosts.keys := by
  obtain ⟨k, hk⟩ := generatedNames_eq_range' hreal (Walk.start hosts highest) args
  rw [startWalk_of_existingHosts hload, hk]
  refine ⟨List.Nodup.map (generatedName_injective env) List.nodup_range', fun name hname => ?_⟩
  obtain ⟨n, hn, rfl⟩ := List.mem_map.mp hname
  have hlt : highest < n := (List.mem_range'_1.mp hn).1
  cases loadPreviousConfig with
  | true => exact generatedName_notMem_of_lt hdot (existingHosts_eq_ok hload).2 hlt
  | false =>
      cases hload
      exact List.not_mem_nil

/-- A file with a host that has the number two, and a run that adds two addresses and
removes that host in between. -/
theorem generatedNames_fresh_node2 :
    let cfg : Config :=
      { hosts := .is (OrderedDict.empty.set "node2".toList
          (hostOpts "10.0.0.2".toList "10.0.0.2".toList))
        children := OrderedDict.empty }
    let names := generatedNames .default (startWalk .default cfg true)
      ["10.0.0.3".toList, "-node2".toList, "10.0.0.4,10.0.1.4".toList]
    names = ["node3".toList, "node4".toList] ∧ names.Nodup ∧
      ∀ name ∈ names, name ∉ ["node2".toList] := by
  intro cfg names
  have hload : existingHosts .default cfg true
      = .ok (OrderedDict.empty.set "node2".toList
          (hostOpts "10.0.0.2".toList "10.0.0.2".toList), 2) := rfl
  exact ⟨by decide, generatedNames_fresh (by decide) rfl hload _⟩

end Kubespray.Inventory
