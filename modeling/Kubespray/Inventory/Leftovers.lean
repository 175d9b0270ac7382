import Kubespray.Inventory.Assigned
import Kubespray.Inventory.Uniqueness

/-!
# Variables That Are Left Over

An argument that starts with a letter and has no comma names a host without an address. The
loop then goes on with `hostname`, `ip` and `access_ip` as an earlier argument left them: it
raises when one of them was never assigned, and assigns once more what that argument
assigned when the address has become free in between.

## Main results

* `leavesHosts_iff`: when such an argument leaves the host map as it was.
* `noLeak_iff`: so at every such argument of a run.
-/

namespace Kubespray.Inventory

open OrderedDict Fallible

variable {env : Env} {w w' : Walk} {t : Text}

/-- A hostname without an address. -/
def BareHostname (env : Env) (t : Text) : Prop :=
  startsWithLetter env t = true ∧ ',' ∉ t

/-- The argument raises, or leaves the host map as it was. -/
def LeavesHosts (env : Env) (w : Walk) (t : Text) : Prop :=
  (∃ e, stepHost env w t = .error e) ∨
    ∃ w', stepHost env w t = .ok w' ∧ w'.allHosts = w.allHosts

/-- A host is called like the argument, or a variable of the loop is unassigned, or the
address left over is not free. -/
def NothingLeftOver (w : Walk) (t : Text) : Prop :=
  existsHostname w.allHosts t = true ∨
    ∀ name ∈ w.hostname, ∀ ip ∈ w.ip, ∀ accessIp ∈ w.accessIp,
      existsIp w.allHosts ip ≠ .ok false

/-- A bare hostname has no digit in front. -/
theorem BareHostname.startsWithDigit (ht : BareHostname env t) :
    startsWithDigit env t = false := by
  cases t with
  | nil => rfl
  | cons c rest => exact env.chars.isalpha_not_isdigit c ht.1

/-- A bare hostname is unpacked into nothing. -/
theorem BareHostname.unpacked (ht : BareHostname env t) : unpacked env w t = .ok w := by
  rw [Inventory.unpacked, if_neg (by simp [ht.startsWithDigit]), unpackHostname, if_neg ht.2]

/-- **What a bare hostname assigns**: what is left over. -/
theorem BareHostname.assigned_eq_none_iff (ht : BareHostname env t) :
    assigned env w t = none ↔ NothingLeftOver w t := by
  have hread : isRead env t = true := by rw [isRead, ht.1, Bool.or_true]
  have hname : chosenName env w t = w.hostname := by
    rw [chosenName, if_neg (by simp [ht.startsWithDigit])]
  constructor
  · intro hnone
    by_cases hex : existsHostname w.allHosts t = true
    · exact Or.inl hex
    · refine Or.inr fun name hhost ip hip accessIp haccess hfree => ?_
      have hsome : assigned env w t = some ⟨name, ip, accessIp⟩ :=
        assigned_eq_some_iff.mpr ⟨hread, by simpa using hex, hfree, w, ht.unpacked, hip,
          haccess, hname.trans hhost⟩
      rw [hnone] at hsome
      cases hsome
  · intro hnothing
    by_contra hne
    obtain ⟨a, ha⟩ := Option.ne_none_iff_exists'.mp hne
    obtain ⟨-, hex, hfree, w₁, hunpack, hip, haccess, hhost⟩ := assigned_eq_some_iff.mp ha
    obtain rfl : w = w₁ := Except.ok.inj (ht.unpacked.symm.trans hunpack)
    rcases hnothing with hexists | hbound
    · rw [hexists] at hex
      cases hex
    · exact hbound _ (hname.symm.trans hhost) _ hip _ haccess hfree

/-- An assignment changes the host map: it brings in an address that was free. -/
theorem HostAssignment.apply_ne {a : HostAssignment} {hosts : OrderedDict Text Value}
    (hfree : existsIp hosts a.ip = .ok false) : a.apply hosts ≠ hosts := by
  intro heq
  have hself : addressOf (a.apply hosts) a.name = some (.str a.ip) :=
    addressOf_set_self hosts a.name a.accessIp a.ip
  rw [heq] at hself
  exact addressOf_ne_of_existsIp hfree a.name hself

/-- **A bare hostname leaves the host map as it was**, or raises, exactly when nothing is
left over for it. -/
theorem leavesHosts_iff (ht : BareHostname env t) :
    LeavesHosts env w t ↔ NothingLeftOver w t := by
  rw [← @BareHostname.assigned_eq_none_iff env w t ht]
  constructor
  · intro hleaves
    by_contra hne
    obtain ⟨a, ha⟩ := Option.ne_none_iff_exists'.mp hne
    obtain ⟨w', hstep, hhosts⟩ := stepHost_of_assigned ha
    rcases hleaves with ⟨e, herror⟩ | ⟨w'', hstep', hsame⟩
    · rw [hstep] at herror
      cases herror
    · rw [hstep] at hstep'
      cases hstep'
      exact HostAssignment.apply_ne (assigned_eq_some_iff.mp ha).2.2.1 (hhosts.symm.trans hsame)
  · intro hnone
    cases hstep : stepHost env w t with
    | error e => exact Or.inl ⟨e, hstep⟩
    | ok w' =>
        refine Or.inr ⟨w', hstep, ?_⟩
        have hletter : t.head? ≠ some '-' := by
          intro hhead
          obtain ⟨x, rfl⟩ := List.head?_eq_some_iff.mp hhead
          have hdash := env.chars.isalpha_ascii '-' (by decide)
          rw [show env.chars.isalpha '-' = true from ht.1] at hdash
          cases hdash
        rw [allHosts_stepHost hletter hstep, hnone]
        rfl

/-- At every argument of a run that is a bare hostname, the run is aborted there, or the
argument leaves the host map as it was. -/
def NoLeak (env : Env) (cfg : Config) (args : List Text) (loadPreviousConfig : Bool) : Prop :=
  ∀ pre t post w, args = pre ++ t :: post → BareHostname env t →
    walkOver env cfg loadPreviousConfig pre = .ok w →
      (∃ e, stepHost env w t = .error e ∧
        buildHostnames env cfg args loadPreviousConfig = .error e) ∨
      ∃ w', stepHost env w t = .ok w' ∧ w'.allHosts = w.allHosts

/-- **Arguments do not leak into bare hostnames** exactly when, at every one of them, a
host is called like it, a variable is still unassigned, or the address left over is not
free. -/
theorem noLeak_iff (env : Env) (cfg : Config) (args : List Text) (loadPreviousConfig : Bool) :
    NoLeak env cfg args loadPreviousConfig ↔
      ∀ pre t post w, args = pre ++ t :: post → BareHostname env t →
        walkOver env cfg loadPreviousConfig pre = .ok w → NothingLeftOver w t := by
  rw [NoLeak]
  refine forall₄_congr fun pre t post w => imp_congr_right fun hargs => ?_
  refine imp_congr_right fun ht => imp_congr_right fun hwalk => ?_
  rw [← leavesHosts_iff ht, LeavesHosts]
  refine or_congr_left ⟨fun ⟨e, he, _⟩ => ⟨e, he⟩, fun ⟨e, he⟩ => ⟨e, he, ?_⟩⟩
  rw [hargs]
  exact buildHostnames_of_error hwalk he

/-- A host that was removed comes back with the next bare hostname. -/
theorem noLeak_fails :
    ¬ ∀ (env : Env) (cfg : Config) (args : List Text) (loadPreviousConfig : Bool),
      NoLeak env cfg args loadPreviousConfig := by
  intro h
  have hleak := h .default { hosts := .null, children := OrderedDict.empty }
    ["h1,10.0.0.1".toList, "-h1".toList, "foo".toList] false
    ["h1,10.0.0.1".toList, "-h1".toList] "foo".toList [] _ rfl (by constructor <;> decide) rfl
  rcases hleak with ⟨e, he, -⟩ | ⟨w', hw', hsame⟩
  · cases he
  · cases hw'
    have hkeys := congrArg OrderedDict.keys hsame
    revert hkeys
    decide

end Kubespray.Inventory
