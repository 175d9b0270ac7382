import Kubespray.Inventory.Hostnames

/-!
# Unique Addresses

Every branch of `build_hostnames` that writes an entry first asks `exists_ip` for the
address it is about to write, of the map as it is at that moment. So a map whose hosts have
different addresses keeps that property, whatever the arguments are and in whatever order
they come: a deletion takes an address away, and an assignment, also one that overwrites an
entry under a hostname that `ssh` answered or that an earlier argument left behind, brings
in an address that no host has.

## Main results

* `DistinctAddresses.stepHost`: one argument keeps the addresses distinct.
* `buildHostnames_distinctAddresses`: so does `build_hostnames`.
-/

namespace Kubespray.Inventory

open OrderedDict Fallible

/-- What stands under the key `ip` of a host, when the host's options can be read. -/
def addressOf (hosts : OrderedDict Text Value) (host : Text) : Option Value :=
  match hosts.get? host with
  | some opts => (getIpFromOpts opts).toOption
  | none => none

/-- No two hosts have the same address. -/
def DistinctAddresses (hosts : OrderedDict Text Value) : Prop :=
  ∀ a b v, addressOf hosts a = some v → addressOf hosts b = some v → a = b

/-! ### Addresses under the operations on the map -/

/-- An address survives a deletion if it stood under another hostname. -/
theorem addressOf_erase {hosts : OrderedDict Text Value} {gone a : Text} {v : Value}
    (h : addressOf (hosts.erase gone) a = some v) : addressOf hosts a = some v := by
  rw [addressOf] at h ⊢
  by_cases ha : a = gone
  · rw [ha, get?_erase_self] at h
    cases h
  · rwa [get?_erase_of_ne hosts ha] at h

/-- The address of the host that was assigned. -/
theorem addressOf_set_self (hosts : OrderedDict Text Value) (name accessIp ip : Text) :
    addressOf (hosts.set name (hostOpts accessIp ip)) name = some (.str ip) := by
  rw [addressOf, get?_set_self]
  rfl

/-- An assignment leaves the addresses of the other hosts alone. -/
theorem addressOf_set_of_ne (hosts : OrderedDict Text Value) {name a : Text} (opts : Value)
    (ha : a ≠ name) : addressOf (hosts.set name opts) a = addressOf hosts a := by
  rw [addressOf, addressOf, get?_set_of_ne hosts opts ha]

/-- When `exists_ip` answers that an address is free, no host has it. -/
theorem addressOf_ne_of_existsIp {hosts : OrderedDict Text Value} {ip : Text}
    (h : existsIp hosts ip = .ok false) (a : Text) : addressOf hosts a ≠ some (.str ip) := by
  obtain ⟨found, hfind, hfound⟩ := ok_of_bind h
  intro ha
  cases found with
  | some host => cases hfound
  | none =>
      rw [addressOf] at ha
      cases hopts : hosts.get? a with
      | none =>
          rw [hopts] at ha
          cases ha
      | some opts =>
          obtain ⟨v, hget, hv⟩ := findByIp_none hfind (mem_entries_of_get? hopts)
          rw [hopts] at ha
          obtain rfl : v = .str ip := by simpa [hget, Except.toOption] using ha
          simp [Value.isStr] at hv

namespace DistinctAddresses

variable {hosts : OrderedDict Text Value}

/-- The empty map has distinct addresses. -/
theorem empty : DistinctAddresses OrderedDict.empty := by
  intro a b v ha
  cases ha

/-- A deletion keeps the addresses distinct. -/
theorem erase (h : DistinctAddresses hosts) (gone : Text) :
    DistinctAddresses (hosts.erase gone) :=
  fun a b v ha hb => h a b v (addressOf_erase ha) (addressOf_erase hb)

/-- An assignment with a free address keeps the addresses distinct, whether the hostname is
new or not. -/
theorem set (h : DistinctAddresses hosts) {ip : Text} (hip : existsIp hosts ip = .ok false)
    (name accessIp : Text) : DistinctAddresses (hosts.set name (hostOpts accessIp ip)) := by
  intro a b v ha hb
  by_cases han : a = name <;> by_cases hbn : b = name
  · rw [han, hbn]
  · rw [han, addressOf_set_self] at ha
    rw [addressOf_set_of_ne hosts _ hbn, ← ha] at hb
    exact absurd hb (addressOf_ne_of_existsIp hip b)
  · rw [hbn, addressOf_set_self] at hb
    rw [addressOf_set_of_ne hosts _ han, ← hb] at ha
    exact absurd ha (addressOf_ne_of_existsIp hip a)
  · rw [addressOf_set_of_ne hosts _ han] at ha
    rw [addressOf_set_of_ne hosts _ hbn] at hb
    exact h a b v ha hb

/-- **One argument keeps the addresses distinct**, whatever the earlier arguments left in
the variables of the loop. -/
theorem stepHost {env : Env} {w w' : Walk} {host : Text} (h : DistinctAddresses w.allHosts)
    (hstep : stepHost env w host = .ok w') : DistinctAddresses w'.allHosts := by
  rcases stepHost_guarded hstep with heq | ⟨-, name, -, -, heq⟩ | ⟨name, accessIp, ip, hip, heq⟩
  · rwa [heq]
  · rw [heq]
    exact h.erase name
  · rw [heq]
    exact h.set hip name accessIp

/-- The map that the walk starts from has distinct addresses if the stored one does. -/
theorem existingHosts {env : Env} {cfg : Config} {loadPreviousConfig : Bool} {highest : ℕ}
    (h : ∀ stored, cfg.hosts = .is stored → DistinctAddresses stored)
    (hload : existingHosts env cfg loadPreviousConfig = .ok (hosts, highest)) :
    DistinctAddresses hosts := by
  rw [Inventory.existingHosts] at hload
  split_ifs at hload with hprevious
  · split at hload
    · rename_i stored hstored
      split at hload <;> cases hload
      exact h _ hstored
    · cases hload
  · cases hload
    exact empty

end DistinctAddresses

/-- **`build_hostnames` preserves address uniqueness**: if no two stored hosts have the same
address, no two hosts of the result do, for every list of arguments and every answer over
`ssh`. -/
theorem buildHostnames_distinctAddresses (env : Env) (cfg : Config) (changedHosts : List Text)
    (loadPreviousConfig : Bool) (hosts : OrderedDict Text Value)
    (hstored : ∀ stored, cfg.hosts = .is stored → DistinctAddresses stored)
    (h : buildHostnames env cfg changedHosts loadPreviousConfig = .ok hosts) :
    DistinctAddresses hosts := by
  obtain ⟨⟨start, highest⟩, hload, h⟩ := ok_of_bind h
  obtain ⟨w, hwalk, h⟩ := ok_of_bind h
  cases h
  exact foldlM_invariant (I := fun w : Walk => DistinctAddresses w.allHosts)
    (fun _ _ _ _ hw hstep => hw.stepHost hstep)
    (DistinctAddresses.existingHosts hstored hload) hwalk

/-- A stored map with one host, from which a run adds an address, overwrites the host under
an explicit hostname, and leaves out an address that is taken. -/
def oneHost : OrderedDict Text Value :=
  OrderedDict.empty.set "node1".toList (hostOpts "10.0.0.1".toList "10.0.0.1".toList)

theorem oneHost_distinctAddresses : DistinctAddresses oneHost :=
  DistinctAddresses.empty.set rfl _ _

theorem buildHostnames_distinctAddresses_oneHost :
    ∃ hosts, buildHostnames Env.default { hosts := .is oneHost, children := OrderedDict.empty }
        ["10.0.0.2".toList, "node1,10.0.0.3".toList, "10.0.0.3".toList] true = .ok hosts ∧
      hosts.keys = ["node1".toList, "node2".toList] ∧ DistinctAddresses hosts := by
  have hrun : buildHostnames Env.default { hosts := .is oneHost, children := OrderedDict.empty }
      ["10.0.0.2".toList, "node1,10.0.0.3".toList, "10.0.0.3".toList] true
      = .ok ((oneHost.set "node2".toList (hostOpts "10.0.0.2".toList "10.0.0.2".toList)).set
          "node1".toList (hostOpts "10.0.0.3".toList "10.0.0.3".toList)) := by
    rfl
  refine ⟨_, hrun, by decide, buildHostnames_distinctAddresses _ _ _ _ _ ?_ hrun⟩
  intro stored hstored
  cases hstored
  exact oneHost_distinctAddresses

end Kubespray.Inventory
