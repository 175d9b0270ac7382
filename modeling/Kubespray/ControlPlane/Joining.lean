import Kubespray.ControlPlane.FirstHost
import Kubespray.Library.Histories
import Kubespray.Library.Tasks

/-!
# Joining the Control Plane

`kubeadm-setup.yml` makes the hosts of a play members of one cluster: `kubeadm init` runs on the
first control plane host, `kubeadm join` on the others, and neither on a host where
`/var/lib/kubelet/config.yaml` exists. That file stands for a `kubeadm` that has run, but it is
written before the host is a member, and stays when `kubeadm` fails behind it. Such a host is
*half done*: no later run touches it, and a run completes without it.

The tasks run again and again, on inventories whose groups change, from the states that failed
runs, `remove-node.yml` and `reset.yml` have left. `kubectl get nodes` lists the node objects, and
these outlive a host that is only reset. Where it lists none, the first host of the group is the
first control plane host, whatever the others are.

## Main results

* `first_eq_facts`: the choice of the first host is that of `define-first-kube-control.yml`.
* `halfDone_iff_spoiled`: how a host is half done after a history.
* `member_iff`: which hosts of a completed run are members, whatever went before.
* `neverASecondInit_iff`: when no history runs `kubeadm init` beside a cluster.
* `headReady_suffices_iff`: why it takes a history that never only resets a node.
-/

namespace Kubespray.ControlPlane

open Tasks Histories

/-! ### The tasks -/

/-- A host: whether `/var/lib/kubelet/config.yaml` exists (`kubeadm_already_run`), and whether it
is a member, which serves the API of the cluster. -/
structure ControlHost where
  alreadyRun : Bool
  joined : Bool
  alreadyRun_of_joined : joined = true → alreadyRun = true

/-- A host without Kubernetes. -/
def ControlHost.fresh : ControlHost :=
  { alreadyRun := false, joined := false, alreadyRun_of_joined := fun h => h }

/-- `kubeadm` has run, and the host is no member. -/
def ControlHost.HalfDone (host : ControlHost) : Prop :=
  host.alreadyRun = true ∧ host.joined = false

/-- What comes of `kubeadm init` or `kubeadm join` on a host, its retries included: what it leaves
there, and whether the host is registered as a node, which its kubelet does. -/
structure Attempt where
  succeeds : Bool
  leaves : ControlHost
  registers : Bool
  joined_of_succeeds : succeeds = true → leaves.joined = true
  alreadyRun_of_registers : registers = true → leaves.alreadyRun = true

/-- A command that succeeds. -/
def Attempt.done : Attempt where
  succeeds := true
  leaves := { alreadyRun := true, joined := true, alreadyRun_of_joined := fun h => h }
  registers := true
  joined_of_succeeds h := h
  alreadyRun_of_registers h := h

/-- A command that fails when it has written the file. -/
def Attempt.stuck : Attempt where
  succeeds := false
  leaves := { alreadyRun := true, joined := false, alreadyRun_of_joined := fun _ => rfl }
  registers := false
  joined_of_succeeds h := h
  alreadyRun_of_registers _ := rfl

/-- The hosts, and the node objects of the control plane. -/
abbrev Cluster := Fleet Text ControlHost (List Text)

/-- The task that has failed. -/
inductive KubeadmFailure
  | init
  | token
  | uploadCerts
  | apiserver
  | join
deriving DecidableEq

/-- A run of the tasks on the hosts of a play, and what comes of the commands. -/
structure KubeadmRun where
  group : List Text
  batch : List Text
  mem_group : ∀ h ∈ batch, h ∈ group
  /-- The nodes in the answer of `kubectl get nodes` on the first host of the play. -/
  listing : Option (List Text)
  kubeExternalCaMode : Bool
  init : Attempt
  token : Bool
  uploadCerts : Bool
  apiserver : Bool
  join : Text → Attempt

namespace KubeadmRun

/-- A run on all hosts of the group, in which nothing fails but what `kubeadm join` does. -/
def onAll (group : List Text) (listing : Option (List Text)) (join : Text → Attempt) :
    KubeadmRun where
  group := group
  batch := group
  mem_group _ h := h
  listing := listing
  kubeExternalCaMode := false
  init := .done
  token := true
  uploadCerts := true
  apiserver := true
  join := join

variable (r : KubeadmRun)

/-- `first_kube_control_plane`. -/
def first : Option Text :=
  (r.listing.getD []).head?.or r.group.head?

/-- The condition of `kubeadm | Initialize first master`. -/
def inits (first : Text) (s : Cluster) : Bool :=
  first ∈ r.batch ∧ (s.host first).alreadyRun = false

/-- What `kubeadm init` leaves. -/
def initialized (first : Text) (s : Cluster) : Cluster :=
  if r.inits first s then
    { host := Function.update s.host first r.init.leaves
      shared := if r.init.registers then first :: s.shared else s.shared }
  else s

/-- `kubeadm | Initialize first master`. -/
def initFirst (first : Text) : EStateM KubeadmFailure Cluster PUnit :=
  attempt (r.initialized first) (fun s => !r.inits first s || r.init.succeeds) .init

/-- `Create kubeadm token for joining nodes with 24h expiration (default)`, on the first host. -/
def createToken : EStateM KubeadmFailure Cluster PUnit :=
  ensure (fun _ => r.token) .token

/-- `Upload certificates so they are fresh and not expired`, on the first host. -/
def upload (first : Text) : EStateM KubeadmFailure Cluster PUnit :=
  ensure (fun _ => first ∉ r.batch || r.kubeExternalCaMode || r.uploadCerts) .uploadCerts

/-- `Wait for k8s apiserver`. -/
def waitForApiserver : EStateM KubeadmFailure Cluster PUnit :=
  ensure (fun _ => r.apiserver) .apiserver

/-- The condition of `Joining control plane node to the cluster.` -/
def joins (first : Text) (s : Cluster) (host : Text) : Bool :=
  host ∈ r.batch ∧ host ≠ first ∧ (s.host host).alreadyRun = false

/-- What `kubeadm join` leaves. -/
def othersJoined (first : Text) (s : Cluster) : Cluster where
  host h := if r.joins first s h then (r.join h).leaves else s.host h
  shared := r.batch.filter (fun h => r.joins first s h && (r.join h).registers) ++ s.shared

/-- `Joining control plane node to the cluster.`, on the other hosts. -/
def joinOthers (first : Text) : EStateM KubeadmFailure Cluster PUnit :=
  attempt (r.othersJoined first)
    (fun s => r.batch.all fun h => !r.joins first s h || (r.join h).succeeds) .join

/-- `kubeadm-setup.yml`, with the first host that was chosen. -/
def setup : Option Text → EStateM KubeadmFailure Cluster PUnit
  | some first => do
    r.initFirst first
    r.createToken
    r.upload first
    r.waitForApiserver
    r.joinOthers first
  | none => pure ⟨⟩

/-- `kubeadm-setup.yml` on the hosts of a play. -/
def kubeadmSetup : EStateM KubeadmFailure Cluster PUnit :=
  if r.batch = [] then pure ⟨⟩ else r.setup r.first

/-- Where `kubectl get nodes` answers, it lists node objects. -/
def answers (s : Cluster) : Bool :=
  r.listing.all fun names => names.all (· ∈ s.shared)

end KubeadmRun

/-! ### Histories -/

/-- What happens to the hosts. -/
inductive Event
  | run (r : KubeadmRun)
  /-- `remove-node.yml`: the host is reset (`reset_nodes`), and its node object is deleted. -/
  | remove (host : Text) (resetNodes : Bool)
  /-- `reset.yml` on one host. -/
  | reset (host : Text)
  /-- `reset.yml` on all hosts, the etcd hosts among them. -/
  | wipe

/-- New hosts. -/
def noCluster : Cluster where
  host _ := .fresh
  shared := []

/-- What an event leaves. A run gets the answer that the nodes give. -/
def step (s : Cluster) : Event → Option Cluster
  | .run r => if r.answers s then some (left (r.kubeadmSetup s)) else none
  | .remove h resetNodes => some
    { host := if resetNodes then Function.update s.host h .fresh else s.host
      shared := s.shared.filter (· ≠ h) }
  | .reset h => some { s with host := Function.update s.host h .fresh }
  | .wipe => some noCluster

/-- No host has joined a cluster yet. -/
def Unjoined (s : Cluster) : Prop :=
  ∀ h, (s.host h).joined = false

/-- The event resets the host. -/
def Event.Clears (h : Text) : Event → Prop
  | .run _ => False
  | .remove host resetNodes => host = h ∧ resetNodes = true
  | .reset host => host = h
  | .wipe => True

/-! ### The first host -/

/-- The hosts choose as `define-first-kube-control.yml` does. -/
theorem first_eq_facts {c : ControlGroup} {r : KubeadmRun} {head : Text} {rest : List Text}
    (hgroup : c.group = head :: rest) (hsame : r.group = c.group)
    (hlisting : r.listing = c.kubectlGetNodes head) {h : Text} (hmem : h ∈ c.group) :
    (c.facts h).firstKubeControlPlane = r.first := by
  rw [ControlGroup.firstKubeControlPlane_eq hgroup hmem, KubeadmRun.first, hlisting, hsame,
    hgroup, List.head?_cons]

namespace KubeadmRun

variable {r : KubeadmRun} {s t : Cluster} {first : Text}

/-- The first host is a node, or no node is listed and it is the first of the group. -/
theorem mem_nodes_or_head (hanswers : r.answers s = true) (hfirst : r.first = some first) :
    first ∈ s.shared ∨ (r.listing.getD [] = [] ∧ r.group.head? = some first) := by
  rw [KubeadmRun.first] at hfirst
  cases hlisting : r.listing with
  | none =>
      rw [hlisting] at hfirst
      exact Or.inr ⟨rfl, hfirst⟩
  | some names =>
      rw [answers, hlisting, Option.all_some] at hanswers
      rw [hlisting, Option.getD_some] at hfirst
      cases names with
      | nil => exact Or.inr ⟨rfl, hfirst⟩
      | cons name names =>
          obtain rfl : name = first := Option.some.inj hfirst
          exact Or.inl (of_decide_eq_true
            (List.all_eq_true.mp hanswers name List.mem_cons_self))

/-! ### What a run does to a host -/

/-- What the tasks can do: a host on which `kubeadm` has run stays as it is, and a new node is one
on which it has. -/
structure Ran (s t : Cluster) : Prop where
  host : ∀ h, (s.host h).alreadyRun = true → t.host h = s.host h
  nodes : ∀ n ∈ t.shared, n ∈ s.shared ∨ (t.host n).alreadyRun = true

/-- Nothing. -/
theorem Ran.refl (s : Cluster) : Ran s s :=
  ⟨fun _ _ => rfl, fun _ hn => Or.inl hn⟩

/-- One task and then another. -/
theorem Ran.trans {u : Cluster} (h₁ : Ran s t) (h₂ : Ran t u) : Ran s u := by
  refine ⟨fun h hrun => ?_, fun n hn => ?_⟩
  · have hsame := h₁.host h hrun
    rw [h₂.host h (hsame ▸ hrun), hsame]
  · obtain hold | hnew := h₂.nodes n hn
    · refine (h₁.nodes n hold).imp_right fun hrun => ?_
      rwa [h₂.host n hrun]
    · exact Or.inr hnew

/-- `kubeadm init` runs where it has not. -/
theorem initialized_ran (s : Cluster) : Ran s (r.initialized first s) := by
  rw [initialized]
  by_cases hinits : r.inits first s = true
  · rw [if_pos hinits]
    refine ⟨fun h hrun => Function.update_of_ne (fun heq => ?_) .., fun n hn => ?_⟩
    · rw [heq, (of_decide_eq_true hinits).2] at hrun
      cases hrun
    · by_cases hreg : r.init.registers = true
      · simp only [if_pos hreg, List.mem_cons] at hn
        obtain rfl | hold := hn
        · refine Or.inr ?_
          simp only [Function.update_self]
          exact r.init.alreadyRun_of_registers hreg
        · exact Or.inl hold
      · simp only [if_neg hreg] at hn
        exact Or.inl hn
  · rw [if_neg hinits]
    exact Ran.refl s

/-- So does `kubeadm join`. -/
theorem othersJoined_ran (s : Cluster) : Ran s (r.othersJoined first s) := by
  refine ⟨fun h hrun => if_neg fun hjoins => ?_, fun n hn => ?_⟩
  · rw [(of_decide_eq_true hjoins).2.2] at hrun
    cases hrun
  · obtain hnew | hold := List.mem_append.mp hn
    · have hreg := Bool.and_eq_true_iff.mp (List.mem_filter.mp hnew).2
      refine Or.inr ?_
      simp only [othersJoined, if_pos hreg.1]
      exact (r.join n).alreadyRun_of_registers hreg.2
    · exact Or.inl hold

/-- **What a run can do**, however it comes out. -/
theorem kubeadmSetup_ran (r : KubeadmRun) (s : Cluster) : Ran s (left (r.kubeadmSetup s)) := by
  have hsetup : ∀ first, Triple (Ran s) (r.setup first) (fun _ => Ran s) (Ran s) := by
    intro first
    cases first with
    | none => exact Triple.pure fun _ h => h
    | some first =>
        exact (Triple.attempt (Q := fun _ => Ran s) (fun t ht _ => ht.trans (initialized_ran t))
          fun t ht => ht.trans (initialized_ran t)).bind fun _ =>
          (Triple.ensure (Q := fun _ => Ran s) (fun _ ht _ => ht) fun _ ht => ht).bind fun _ =>
          (Triple.ensure (Q := fun _ => Ran s) (fun _ ht _ => ht) fun _ ht => ht).bind fun _ =>
          (Triple.ensure (Q := fun _ => Ran s) (fun _ ht _ => ht) fun _ ht => ht).bind fun _ =>
          Triple.attempt (fun t ht _ => ht.trans (othersJoined_ran t))
            fun t ht => ht.trans (othersJoined_ran t)
  have hrun : Triple (Ran s) r.kubeadmSetup (fun _ => Ran s) (Ran s) :=
    Triple.ite (fun _ => Triple.pure fun _ h => h) fun _ => hsetup r.first
  exact hrun.left (fun _ _ h => h) (fun _ h => h) (Ran.refl s)

/-! ### Members -/

/-- A play on some hosts has a first control plane host. -/
theorem exists_first (hne : r.batch ≠ []) : ∃ first, r.first = some first := by
  obtain ⟨h, hmem⟩ := List.exists_mem_of_ne_nil _ hne
  rw [KubeadmRun.first]
  cases (r.listing.getD []).head? with
  | some name => exact ⟨name, rfl⟩
  | none =>
      cases hgroup : r.group with
      | nil =>
          have hno := r.mem_group h hmem
          rw [hgroup] at hno
          cases hno
      | cons head rest => exact ⟨head, rfl⟩

/-- What is known of a state when the tasks have got to the hosts that join: the first host is a
member unless it is half done, and no other host has been touched. -/
structure FirstJoined (r : KubeadmRun) (s : Cluster) (first : Text) (t : Cluster) : Prop where
  joined : r.inits first s = true → (t.host first).joined = true
  kept : (s.host first).alreadyRun = true → t.host first = s.host first
  others : ∀ h, h ≠ first → t.host h = s.host h

/-- The task that makes the first host a member. -/
theorem firstJoined_initialized (hsucceeds : (!r.inits first s || r.init.succeeds) = true) :
    FirstJoined r s first (r.initialized first s) where
  joined hinits := by
    rw [hinits, Bool.not_true, Bool.false_or] at hsucceeds
    rw [initialized, if_pos hinits]
    simp only [Function.update_self]
    exact r.init.joined_of_succeeds hsucceeds
  kept := (initialized_ran s).host first
  others h hne := by
    rw [initialized]
    by_cases hinits : r.inits first s = true
    · rw [if_pos hinits]
      exact Function.update_of_ne hne ..
    · rw [if_neg hinits]

/-- The tasks up to the hosts that join. -/
theorem setup_triple {Q : PUnit → Cluster → Prop}
    (hjoin : Triple (FirstJoined r s first) (r.joinOthers first) Q fun _ => True) :
    Triple (fun t => t = s) (r.setup (some first)) Q fun _ => True := by
  refine (Triple.attempt (Q := fun _ => FirstJoined r s first) ?init fun _ _ => trivial).bind
    fun _ => (Triple.ensure (Q := fun _ => FirstJoined r s first) (fun _ ht _ => ht)
    fun _ _ => trivial).bind fun _ => (Triple.ensure (Q := fun _ => FirstJoined r s first)
    (fun _ ht _ => ht) fun _ _ => trivial).bind fun _ =>
    (Triple.ensure (Q := fun _ => FirstJoined r s first) (fun _ ht _ => ht)
    fun _ _ => trivial).bind fun _ => hjoin
  rintro t rfl hsucceeds
  exact firstJoined_initialized hsucceeds

/-- **The hosts of a completed run** are members, but for those that are half done. -/
theorem joined_iff {s' : Cluster} (hok : r.kubeadmSetup s = .ok ⟨⟩ s') {h : Text}
    (hmem : h ∈ r.batch) : (s'.host h).joined = true ↔ ¬ (s.host h).HalfDone := by
  have hne : r.batch ≠ [] := List.ne_nil_of_mem hmem
  obtain ⟨first, hfirst⟩ := exists_first hne
  rw [kubeadmSetup, if_neg hne, hfirst] at hok
  refine (setup_triple (Q := fun _ t => (t.host h).joined = true ↔ ¬ (s.host h).HalfDone)
    (Triple.attempt (fun t ht hjoined => ?_) fun _ _ => trivial)).of_ok rfl hok
  by_cases hrun : (s.host h).alreadyRun = true
  · -- Neither command runs on the host.
    have hsame : t.host h = s.host h := by
      by_cases heq : h = first
      · exact heq ▸ ht.kept (heq ▸ hrun)
      · exact ht.others h heq
    rw [(othersJoined_ran t).host h (hsame ▸ hrun), hsame, ControlHost.HalfDone, hrun]
    simp only [true_and, Bool.not_eq_false]
  · have hnotyet := Bool.eq_false_iff.mpr hrun
    refine iff_of_true ?_ fun hhalf => hrun hhalf.1
    by_cases heq : h = first
    · subst heq
      have hkept : r.joins h t h = false := decide_eq_false fun hno => hno.2.1 rfl
      simp only [othersJoined, if_neg (Bool.eq_false_iff.mp hkept)]
      exact ht.joined (decide_eq_true ⟨hmem, hnotyet⟩)
    · have hjoins : r.joins first t h = true :=
        decide_eq_true ⟨hmem, heq, by rwa [ht.others h heq]⟩
      have hsucceeds := List.all_eq_true.mp hjoined h hmem
      rw [hjoins, Bool.not_true, Bool.false_or] at hsucceeds
      simp only [othersJoined, if_pos hjoins]
      exact (r.join h).joined_of_succeeds hsucceeds

end KubeadmRun

/-! ### Who is a member -/

/-- What several events leave. -/
def afterAll (events : List Event) (s : Cluster) : Option Cluster :=
  events.foldlM step s

/-- The event is a run that leaves the host half done, on which `kubeadm` had not run. -/
def Event.Spoils (h : Text) (s : Cluster) : Event → Prop
  | .run r => (s.host h).alreadyRun = false ∧ ((left (r.kubeadmSetup s)).host h).HalfDone
  | _ => False

/-- **How a host is half done** after an event: it has been before, and is not reset, or a run
spoils it. -/
theorem halfDone_step_iff {s t : Cluster} {e : Event} (hstep : step s e = some t) (h : Text) :
    (t.host h).HalfDone ↔ ((s.host h).HalfDone ∧ ¬ e.Clears h) ∨ e.Spoils h s := by
  have hfresh : ¬ ControlHost.fresh.HalfDone := fun hhalf => by cases hhalf.1
  cases e with
  | run r =>
      rw [step] at hstep
      split_ifs at hstep
      obtain rfl := Option.some.inj hstep
      simp only [Event.Clears, Event.Spoils, not_false_eq_true, and_true]
      by_cases hrun : (s.host h).alreadyRun = true
      · rw [(r.kubeadmSetup_ran s).host h hrun, hrun]
        simp only [Bool.true_eq_false, false_and, or_false]
      · rw [Bool.eq_false_iff.mpr hrun]
        refine ⟨fun hhalf => Or.inr ⟨rfl, hhalf⟩, ?_⟩
        rintro (hhalf | ⟨-, hhalf⟩)
        · exact absurd hhalf.1 hrun
        · exact hhalf
  | remove host resetNodes =>
      obtain rfl := Option.some.inj hstep
      simp only [Event.Clears, Event.Spoils, or_false]
      cases resetNodes with
      | false => simp only [Bool.false_eq_true, if_false, and_false, not_false_eq_true, and_true]
      | true =>
          simp only [if_true, and_true]
          by_cases heq : host = h
          · subst heq
            simp only [Function.update_self, not_true_eq_false, and_false, hfresh]
          · simp only [Function.update_of_ne fun hno : h = host => heq hno.symm, heq,
              not_false_eq_true, and_true]
  | reset host =>
      obtain rfl := Option.some.inj hstep
      simp only [Event.Clears, Event.Spoils, or_false]
      by_cases heq : host = h
      · subst heq
        simp only [Function.update_self, not_true_eq_false, and_false, hfresh]
      · simp only [Function.update_of_ne fun hno : h = host => heq hno.symm, heq,
          not_false_eq_true, and_true]
  | wipe =>
      obtain rfl := Option.some.inj hstep
      simp only [Event.Clears, Event.Spoils, not_true_eq_false, and_false, or_false, iff_false]
      exact hfresh

/-- A run of the history has spoiled the host, and it has not been reset since. -/
def Spoiled (h : Text) (s : Cluster) (events : List Event) : Prop :=
  ∃ before e after u, events = before ++ e :: after ∧ afterAll before s = some u ∧
    e.Spoils h u ∧ ∀ later ∈ after, ¬ later.Clears h

/-- One more event. -/
theorem spoiled_append_singleton {s t : Cluster} {events : List Event}
    (hevents : afterAll events s = some t) (e : Event) (h : Text) :
    Spoiled h s (events ++ [e]) ↔ (Spoiled h s events ∧ ¬ e.Clears h) ∨ e.Spoils h t := by
  constructor
  · rintro ⟨before, e', after, u, hsplit, hbefore, hspoils, hlater⟩
    obtain rfl | ⟨after, last, rfl⟩ := List.eq_nil_or_concat' after
    · obtain ⟨rfl, heq⟩ := List.append_inj' hsplit rfl
      obtain rfl : e = e' := List.head_eq_of_cons_eq heq
      obtain rfl : t = u := Option.some.inj (hevents.symm.trans hbefore)
      exact Or.inr hspoils
    · rw [← List.cons_append, ← List.append_assoc] at hsplit
      obtain ⟨rfl, heq⟩ := List.append_inj' hsplit rfl
      obtain rfl : e = last := List.head_eq_of_cons_eq heq
      refine Or.inl ⟨⟨before, e', after, u, rfl, hbefore, hspoils, fun l hl => ?_⟩, ?_⟩
      · exact hlater l (List.mem_append_left _ hl)
      · exact hlater e (List.mem_append_right _ List.mem_cons_self)
  · rintro (⟨⟨before, e', after, u, rfl, hbefore, hspoils, hlater⟩, hclears⟩ | hspoils)
    · refine ⟨before, e', after ++ [e], u, by simp, hbefore, hspoils, fun l hl => ?_⟩
      obtain hl | hl := List.mem_append.mp hl
      · exact hlater l hl
      · rwa [List.mem_singleton.mp hl]
    · exact ⟨events, e, [], t, rfl, hevents, hspoils, fun _ hl => absurd hl List.not_mem_nil⟩

/-- **How a host is half done** after a history that found it otherwise. -/
theorem halfDone_iff_spoiled {s t : Cluster} {events : List Event} {h : Text}
    (hs : ¬ (s.host h).HalfDone) (hevents : afterAll events s = some t) :
    (t.host h).HalfDone ↔ Spoiled h s events := by
  induction events using List.reverseRecOn generalizing t with
  | nil =>
      obtain rfl : s = t := Option.some.inj hevents
      refine iff_of_false hs fun ⟨before, e, after, u, hsplit, _⟩ => ?_
      cases before <;> cases hsplit
  | append_singleton events e ih =>
      rw [afterAll, List.foldlM_append, Option.bind_eq_bind, Option.bind_eq_some_iff] at hevents
      obtain ⟨u, hu, hstep⟩ := hevents
      rw [List.foldlM_cons, Option.bind_eq_bind, Option.bind_eq_some_iff] at hstep
      obtain ⟨t', hstep, ht⟩ := hstep
      obtain rfl : t' = t := Option.some.inj ht
      rw [halfDone_step_iff hstep, ih hu, spoiled_append_singleton hu]

/-- **Who is a member** when a run has completed: every host of the play, except for those that an
earlier run has spoiled, and that have not been reset since. -/
theorem member_iff {s t s' : Cluster} {events : List Event} {r : KubeadmRun} {h : Text}
    (hs : ¬ (s.host h).HalfDone) (hevents : afterAll events s = some t)
    (hok : r.kubeadmSetup t = .ok ⟨⟩ s') (hmem : h ∈ r.batch) :
    (s'.host h).joined = true ↔ ¬ Spoiled h s events := by
  rw [KubeadmRun.joined_iff hok hmem, halfDone_iff_spoiled hs hevents]

/-- A run in which `kubeadm join` fails. -/
def stuckRun : KubeadmRun :=
  .onAll ["node1".toList, "node2".toList] none fun _ => .stuck

/-- The next run. -/
def nextRun : KubeadmRun :=
  .onAll ["node1".toList, "node2".toList] (some ["node1".toList]) fun _ => .done

/-- The run that follows completes without the host. -/
theorem member_iff_stuck :
    ((left (nextRun.kubeadmSetup (left (stuckRun.kubeadmSetup noCluster)))).host
      "node2".toList).joined = true ↔ ¬ Spoiled "node2".toList noCluster [.run stuckRun] :=
  member_iff (t := left (stuckRun.kubeadmSetup noCluster)) (r := nextRun)
    (fun hhalf => by cases hhalf.1) rfl rfl (by decide)

/-! ### One cluster -/

/-- `kubeadm` has run on every node. -/
def Registered (s : Cluster) : Prop :=
  ∀ n ∈ s.shared, (s.host n).alreadyRun = true

/-- A host is only reset alone when it is no node. -/
def Event.Orderly (s : Cluster) : Event → Prop
  | .reset h => h ∉ s.shared
  | _ => True

/-- The event is a run of `kubeadm init` where some host is a member of a cluster. -/
def Event.InitBeside (s : Cluster) : Event → Prop
  | .run r => ¬ Unjoined s ∧ ∃ first, r.first = some first ∧ r.inits first s = true
  | _ => False

/-- A run that finds a cluster is given a node, or `kubeadm` has run on the first host of the
group. -/
def Event.HeadReady (s : Cluster) : Event → Prop
  | .run r => Unjoined s ∨ r.listing.getD [] ≠ [] ∨
      ∀ head ∈ r.group.head?, head ∈ r.batch → (s.host head).alreadyRun = true
  | _ => True

/-- **The nodes of an orderly history** are hosts on which `kubeadm` has run. -/
theorem registered_step {s t : Cluster} {e : Event} (hs : Registered s)
    (hstep : step s e = some t) (horderly : e.Orderly s) : Registered t := by
  intro n hn
  cases e with
  | run r =>
      rw [step] at hstep
      split_ifs at hstep
      obtain rfl := Option.some.inj hstep
      obtain hold | hnew := (r.kubeadmSetup_ran s).nodes n hn
      · rw [(r.kubeadmSetup_ran s).host n (hs n hold)]
        exact hs n hold
      · exact hnew
  | remove host resetNodes =>
      obtain rfl := Option.some.inj hstep
      obtain ⟨hold, hne⟩ := List.mem_filter.mp hn
      cases resetNodes with
      | false => exact hs n hold
      | true =>
          simp only [if_true, Function.update_of_ne (of_decide_eq_true hne)]
          exact hs n hold
  | reset host =>
      obtain rfl := Option.some.inj hstep
      simp only [Function.update_of_ne fun heq : n = host => horderly (heq ▸ hn)]
      exact hs n hn
  | wipe =>
      obtain rfl := Option.some.inj hstep
      cases hn

/-- **One run**: what it needs where all nodes have run `kubeadm`. -/
theorem initBeside_iff {s : Cluster} {r : KubeadmRun} (hs : Registered s)
    (hanswers : r.answers s = true) :
    ¬ Event.InitBeside s (.run r) ↔ Event.HeadReady s (.run r) := by
  rw [Event.InitBeside, Event.HeadReady]
  by_cases hunjoined : Unjoined s
  · exact iff_of_true (fun h => h.1 hunjoined) (Or.inl hunjoined)
  · simp only [hunjoined, not_false_eq_true, true_and, false_or, not_exists, not_and]
    constructor
    · intro hnever
      by_cases hlisting : r.listing.getD [] = []
      · refine Or.inr fun head hhead hmem => Bool.not_eq_false _ ▸ fun hnotyet => ?_
        refine hnever head ?_ (decide_eq_true ⟨hmem, hnotyet⟩)
        rw [KubeadmRun.first, hlisting]
        exact hhead
      · exact Or.inl hlisting
    · intro hready first hfirst hinits
      obtain ⟨hmem, hnotyet⟩ := of_decide_eq_true hinits
      have hrun : (s.host first).alreadyRun = true := by
        obtain hnode | ⟨hnone, hhead⟩ := KubeadmRun.mem_nodes_or_head hanswers hfirst
        · exact hs first hnode
        · exact hready.resolve_left (fun hsome => hsome hnone) first hhead hmem
      rw [hrun] at hnotyet
      cases hnotyet

/-- **One cluster**: in a history in which no node is only reset, `kubeadm init` never runs where
some host is a member, exactly when each run that finds a cluster is given a node, or starts with
a host on which `kubeadm` has run. -/
theorem neverASecondInit_iff {s : Cluster} {events : List Event} (hs : Registered s)
    (horderly : Along step (fun s e _ => e.Orderly s) s events) :
    Along step (fun s e _ => ¬ e.InitBeside s) s events ↔
      Along step (fun s e _ => e.HeadReady s) s events := by
  refine along_congr_of_along (fun _ _ _ => registered_step) (fun t e t' ht hstep _ => ?_) hs
    horderly
  cases e with
  | run r =>
      rw [step] at hstep
      split_ifs at hstep with hanswers
      exact initBeside_iff ht hanswers
  | remove | reset | wipe => exact iff_of_true (fun h => h) trivial

/-- Two runs, where the second has the hosts the other way around. -/
def reordered : List Event :=
  [.run (.onAll ["node1".toList, "node2".toList] none fun _ => .done),
    .run (.onAll ["node2".toList, "node1".toList] (some ["node1".toList]) fun _ => .done)]

/-- Such a history is orderly. -/
theorem neverASecondInit_iff_reordered :
    Along step (fun s e _ => ¬ e.InitBeside s) noCluster reordered ↔
      Along step (fun s e _ => e.HeadReady s) noCluster reordered :=
  neverASecondInit_iff (fun n hn => by cases hn)
    ((along_cons_of_some rfl _).mpr ⟨trivial, (along_cons_of_some rfl _).mpr
      ⟨trivial, along_nil _⟩⟩)

/-- **Why no node may only be reset**: what `HeadReady` asks is enough for all runs from a state
just when it has no cluster, or when `kubeadm` has run on every node. -/
theorem headReady_suffices_iff {s : Cluster} :
    (∀ r : KubeadmRun, r.answers s = true → Event.HeadReady s (.run r) →
      ¬ Event.InitBeside s (.run r)) ↔ Unjoined s ∨ Registered s := by
  constructor
  · intro hall
    by_cases hunjoined : Unjoined s
    · exact Or.inl hunjoined
    · refine Or.inr fun n hn => Bool.not_eq_false _ ▸ fun hnotyet => ?_
      -- A run on the node that was reset, whose object the API server still lists.
      refine hall (.onAll [n] (some [n]) fun _ => .done) ?_
        (Or.inr (Or.inl (List.cons_ne_nil n [])))
        ⟨hunjoined, n, rfl, decide_eq_true ⟨List.mem_cons_self, hnotyet⟩⟩
      simp only [KubeadmRun.answers, KubeadmRun.onAll, Option.all_some, List.all_cons,
        List.all_nil, Bool.and_true, decide_eq_true_eq]
      exact hn
  · rintro (hunjoined | hs) r hanswers hready
    · exact fun hinit => hinit.1 hunjoined
    · exact (initBeside_iff hs hanswers).mpr hready

end Kubespray.ControlPlane
