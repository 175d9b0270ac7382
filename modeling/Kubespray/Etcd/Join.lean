import Kubespray.Etcd.Group
import Kubespray.Etcd.Members
import Kubespray.Library.Fallible

/-!
# Joining Members to an Etcd Cluster

On a healthy cluster `configure.yml` first lets every host of the group look for itself
in the member list, and then joins the hosts that were not found, one at a time in group
order. The search is textual, and its result is not reconsidered.

What `etcdctl` does is a parameter (`Etcdctl`): the tasks rely on what `member add` says
about the member list, and on members keeping their peer URLs when they start.

## Main results

* `configure_added`: which hosts `member add` is issued for.
* `configure_peerURLs`: what the joins do to the membership.
* `configure_iff`: the joins complete the membership, and are exactly the joins needed,
  precisely when no host was found through another member's line.
-/

namespace Kubespray.Etcd

open LineSearch Fallible

/-- The peer URLs of all members. -/
def peerURLs (members : List Member) : List Text :=
  members.flatMap Member.peerURLs

/-- The outcome of one call of `etcdctl member add`. -/
structure AddResult where
  rc : ℕ
  /-- `'Peer URLs already exists' in stderr`. -/
  alreadyExists : Bool
  /-- The member list afterwards. -/
  members : List Member

/-- The test `rc == 0 or 'Peer URLs already exists' in stderr`. -/
def AddResult.accepted (r : AddResult) : Bool :=
  r.rc = 0 || r.alreadyExists

/-- What the tasks use of the cluster. -/
structure Etcdctl where
  /-- An attempt of `member add NAME --peer-urls=URL` after which n more are left. -/
  memberAdd : ℕ → List Member → Text → Text → AddResult
  /-- The member list once etcd runs on the host with this name and peer URL. -/
  started : List Member → Text → Text → List Member
  /-- An attempt removes nothing. -/
  memberAdd_keeps : ∀ n members name url, ∀ u ∈ peerURLs members,
    u ∈ peerURLs (memberAdd n members name url).members
  /-- After a success, or when the URL is said to exist, some member has the URL. -/
  memberAdd_accepted : ∀ n members name url,
    (memberAdd n members name url).accepted = true →
      url ∈ peerURLs (memberAdd n members name url).members
  /-- A member that starts publishes its name and client URLs. -/
  started_peerURLs : ∀ members name url u,
    u ∈ peerURLs (started members name url) ↔ u ∈ peerURLs members

variable (ctl : Etcdctl) (g : EtcdGroup)

/-- `etcdctl member list | grep -q {{ etcd_access_address }}` succeeds. -/
def memberInCluster (address : Address) (members : List Member) : Bool :=
  (memberList members).any (search (addressPattern address.text))

/-- `Join Member | Add member to etcd cluster`: attempts until one is accepted, at most
`attempts` of them. -/
def addMember (name url : Text) : ℕ → List Member → Option (List Member)
  | 0, _ => none
  | attempts + 1, members =>
    let r := ctl.memberAdd attempts members name url
    if r.accepted then some r.members else addMember name url attempts r.members

/-- The cluster during the joins. -/
structure Joining where
  members : List Member
  /-- The hosts that `member add` was issued for, in order. -/
  added : List Text

/-- `join_etcd_member.yml`, for one host. A failure carries the name of the task. -/
def joinMember (retries : ℕ) (s : Joining) (host : Text) : Except Text Joining :=
  let v := g.vars host
  let name := g.etcdMemberName host
  match addMember ctl name v.etcdPeerUrl (retries + 1) s.members with
  | none => .error "Join Member | Add member to etcd cluster".toList
  | some members =>
    if memberInCluster v.ownAccessAddress members then
      -- `Configure | Ensure etcd is running` comes last.
      .ok { members := ctl.started members name v.etcdPeerUrl, added := s.added ++ [host] }
    else
      .error "Join Member | Ensure member is in etcd cluster".toList

/-- The host has to join: `etcd_cluster_setup and etcd_member_in_cluster.rc != 0 and
etcd_cluster_is_healthy.rc == 0`. -/
def mustJoin (setup healthy : Bool) (members : List Member) (host : Text) : Bool :=
  setup && !memberInCluster (g.vars host).ownAccessAddress members && healthy

/-- `Configure | Check if member is in etcd cluster` on all hosts, then
`Configure | Join member(s) to etcd cluster one at a time`. -/
def configure (setup healthy : Bool) (retries : ℕ) (members : List Member) :
    Except Text Joining :=
  g.hosts.foldlM
    (fun s item =>
      if mustJoin g setup healthy members item then joinMember ctl g retries s item else .ok s)
    { members := members, added := [] }

variable {ctl g} {setup healthy : Bool} {retries : ℕ} {members : List Member}

/-! ### One join -/

/-- An accepted addition leaves the URL in the list, and everything that was there. -/
theorem addMember_peerURLs {name url : Text} {attempts : ℕ} {ms ms' : List Member}
    (h : addMember ctl name url attempts ms = some ms') :
    url ∈ peerURLs ms' ∧ ∀ u ∈ peerURLs ms, u ∈ peerURLs ms' := by
  induction attempts generalizing ms with
  | zero => cases h
  | succ attempts ih =>
      rw [addMember] at h
      split_ifs at h with hacc
      · cases h
        exact ⟨ctl.memberAdd_accepted _ _ _ _ hacc, ctl.memberAdd_keeps _ _ _ _⟩
      · obtain ⟨hurl, hkeep⟩ := ih h
        exact ⟨hurl, fun u hu => hkeep u (ctl.memberAdd_keeps _ _ _ _ u hu)⟩

/-- What a completed join has done. -/
theorem joinMember_spec {s s' : Joining} {host : Text}
    (h : joinMember ctl g retries s host = .ok s') :
    s'.added = s.added ++ [host] ∧ (g.vars host).etcdPeerUrl ∈ peerURLs s'.members ∧
      ∀ u ∈ peerURLs s.members, u ∈ peerURLs s'.members := by
  rw [joinMember] at h
  cases hadd : addMember ctl (g.etcdMemberName host) (g.vars host).etcdPeerUrl (retries + 1)
      s.members with
  | none =>
      rw [hadd] at h
      cases h
  | some ms =>
      rw [hadd] at h
      dsimp only at h
      obtain ⟨hurl, hkeep⟩ := addMember_peerURLs hadd
      split_ifs at h
      cases h
      exact ⟨rfl, (ctl.started_peerURLs ..).mpr hurl,
        fun u hu => (ctl.started_peerURLs ..).mpr (hkeep u hu)⟩

/-! ### All joins -/

/-- The hosts that `member add` was issued for, from any point of the loop on. -/
theorem foldlM_join_added {hosts : List Text} {must : Text → Bool} {s s' : Joining}
    (h : hosts.foldlM
      (fun s item => if must item then joinMember ctl g retries s item else .ok s) s = .ok s') :
    s'.added = s.added ++ hosts.filter must := by
  induction hosts generalizing s with
  | nil =>
      cases h
      simp
  | cons host hosts ih =>
      obtain ⟨s₁, hstep, h⟩ := foldlM_cons_eq_ok_iff.mp h
      rw [ih h, List.filter_cons]
      split_ifs at hstep ⊢ with hmust
      · rw [(joinMember_spec hstep).1, List.append_assoc, List.singleton_append]
      · cases hstep
        rfl

/-- **Which hosts are added**: those that did not find themselves in the initial list. -/
theorem configure_added {s : Joining}
    (h : configure ctl g setup healthy retries members = .ok s) :
    s.added = g.hosts.filter (mustJoin g setup healthy members) :=
  foldlM_join_added h

/-- **What the joins do to the membership**: it grows, and has the peer URL of each host
that was added. -/
theorem configure_peerURLs {s : Joining}
    (h : configure ctl g setup healthy retries members = .ok s) :
    (∀ u ∈ peerURLs members, u ∈ peerURLs s.members) ∧
      ∀ host ∈ s.added, (g.vars host).etcdPeerUrl ∈ peerURLs s.members := by
  refine foldlM_invariant
    (I := fun s : Joining => (∀ u ∈ peerURLs members, u ∈ peerURLs s.members) ∧
      ∀ host ∈ s.added, (g.vars host).etcdPeerUrl ∈ peerURLs s.members)
    (fun s host s' _ hinv hstep => ?_) ⟨fun _ hu => hu, fun _ hhost => by cases hhost⟩ h
  split_ifs at hstep
  · obtain ⟨hadded, hurl, hkeep⟩ := joinMember_spec hstep
    refine ⟨fun u hu => hkeep u (hinv.1 u hu), fun other hother => ?_⟩
    rw [hadded] at hother
    rcases List.mem_append.mp hother with hold | hnew
    · exact hkeep _ (hinv.2 other hold)
    · rw [List.mem_singleton.mp hnew]
      exact hurl
  · cases hstep
    exact hinv

/-- A host whose peer URL is in the list finds itself. -/
theorem memberInCluster_of_peerURL {host : Text}
    (h : (g.vars host).etcdPeerUrl ∈ peerURLs members) :
    memberInCluster (g.vars host).ownAccessAddress members = true := by
  obtain ⟨m, hm, hurl⟩ := List.mem_flatMap.mp h
  refine List.any_eq_true.mpr ⟨m.line, List.mem_map_of_mem hm, ?_⟩
  exact search_of_url (List.mem_append_left _ hurl) (HostVars.ownAccessAddress_isInfix _)

/-- Every host of the group is a member under its own peer URL. -/
def AllMembers (g : EtcdGroup) (members : List Member) : Prop :=
  ∀ host ∈ g.hosts, (g.vars host).etcdPeerUrl ∈ peerURLs members

/-- The hosts of the group whose peer URL is in no member. -/
def missingHosts (g : EtcdGroup) (members : List Member) : List Text :=
  g.hosts.filter fun host => (g.vars host).etcdPeerUrl ∉ peerURLs members

/-- **Joining completes the membership**: every host ends as a member and `member add`
was issued exactly for the missing ones, precisely when each host that found its address
in the initial list was a member. -/
theorem configure_iff {s : Joining}
    (h : configure ctl g true true retries members = .ok s) :
    AllMembers g s.members ∧ s.added = missingHosts g members ↔
      ∀ host ∈ g.hosts, memberInCluster (g.vars host).ownAccessAddress members = true →
        (g.vars host).etcdPeerUrl ∈ peerURLs members := by
  have hmust : ∀ host, mustJoin g true true members host
      = !memberInCluster (g.vars host).ownAccessAddress members := by
    intro host
    simp [mustJoin]
  obtain ⟨hkeep, hurls⟩ := configure_peerURLs h
  have hadded := configure_added h
  have hcoarse : ∀ host, mustJoin g true true members host = true →
      decide ((g.vars host).etcdPeerUrl ∉ peerURLs members) = true := by
    intro host hjoin
    refine decide_eq_true fun hmem => ?_
    rw [hmust, memberInCluster_of_peerURL hmem] at hjoin
    cases hjoin
  have hissued : s.added = missingHosts g members ↔
      ∀ host ∈ g.hosts, memberInCluster (g.vars host).ownAccessAddress members = true →
        (g.vars host).etcdPeerUrl ∈ peerURLs members := by
    have hfilter := @map_filter_eq_iff _ _ _ _ id g.hosts hcoarse
    rw [List.map_id, List.map_id, eq_comm, ← hadded] at hfilter
    refine hfilter.trans (forall₂_congr fun host _ => ?_)
    rw [hmust, Bool.not_eq_false', decide_eq_false_iff_not, not_not]
  rw [← hissued]
  refine ⟨And.right, fun hset => ⟨fun host hhost => ?_, hset⟩⟩
  by_cases hmem : (g.vars host).etcdPeerUrl ∈ peerURLs members
  · exact hkeep _ hmem
  · refine hurls host ?_
    rw [hset]
    exact List.mem_filter.mpr ⟨hhost, decide_eq_true hmem⟩

/-! ### Two hosts -/

/-- The member that `member add` creates: without name and client URLs until it starts. -/
def unstarted (url : Text) : Member where
  id := ⟨"b7".toList, by decide, by decide⟩
  status := "unstarted".toList
  name := []
  peerURLs := [url]
  clientURLs := []
  isLearner := false

/-- The name and status of a member once it runs. -/
def Member.start (name url : Text) (m : Member) : Member :=
  if m.peerURLs = [url] then { m with status := "started".toList, name := name } else m

/-- A cluster in which every attempt is answered at once. -/
def promptEtcdctl : Etcdctl where
  memberAdd _ members _ url :=
    if url ∈ peerURLs members then { rc := 1, alreadyExists := true, members := members }
    else { rc := 0, alreadyExists := false, members := members ++ [unstarted url] }
  started members name url := members.map (Member.start name url)
  memberAdd_keeps _ members _ url u hu := by
    split_ifs
    · exact hu
    · exact List.mem_flatMap.mpr (by
        obtain ⟨m, hm, hmem⟩ := List.mem_flatMap.mp hu
        exact ⟨m, List.mem_append_left _ hm, hmem⟩)
  memberAdd_accepted _ members _ url _ := by
    split_ifs with hmem
    · exact hmem
    · simp [peerURLs, unstarted]
  started_peerURLs members name url u := by
    have hstart : ∀ m : Member, (m.start name url).peerURLs = m.peerURLs := by
      intro m
      rw [Member.start]
      split_ifs <;> rfl
    simp only [peerURLs, List.flatMap_map, hstart]

/-- A cluster of one member, which runs at an address. -/
def oneMember (address : Address) : List Member :=
  [memberOf ⟨"a1".toList, by decide, by decide⟩ "etcd1".toList address]

/-- The host at `10.0.0.2` joins the member at `10.0.0.1`. -/
theorem configure_twoHosts :
    ∃ s, configure promptEtcdctl (twoHosts nodeOne nodeTwo) true true 4 (oneMember nodeOne)
        = .ok s ∧ AllMembers (twoHosts nodeOne nodeTwo) s.members ∧
      s.added = ["second".toList] := by
  have hrun : configure promptEtcdctl (twoHosts nodeOne nodeTwo) true true 4 (oneMember nodeOne)
      = .ok { members := _, added := _ } := rfl
  exact ⟨_, hrun, (configure_iff hrun).mpr (by decide)⟩

/-- The host at `10.0.0.1` finds its address in the line of the member at `10.0.0.10`
and is not joined. -/
theorem configure_fails :
    ¬ ∀ (ctl : Etcdctl) (g : EtcdGroup) (retries : ℕ) (members : List Member) (s : Joining),
      (∀ a ∈ g.hosts, ∀ b ∈ g.hosts, a ≠ b →
        (g.vars a).ownAccessAddress ≠ (g.vars b).ownAccessAddress) →
      configure ctl g true true retries members = .ok s →
      AllMembers g s.members ∧ s.added = missingHosts g members := by
  intro h
  have hjoin := h promptEtcdctl (twoHosts nodeTen nodeOne) 4 (oneMember nodeTen)
    { members := oneMember nodeTen, added := [] } (by decide) rfl
  exact absurd hjoin.2 (by decide)

end Kubespray.Etcd
