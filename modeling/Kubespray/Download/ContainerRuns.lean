import Kubespray.Download.Container

/-!
# Runs That Fail and Runs That Complete

What `download_container.yml` leaves when it fails is what the next run starts with. A save that
fails leaves a truncated file, and a file in the cache of the Ansible host counts as the image, so
that a truncated file there is never replaced and never loaded.

The file is saved on the delegate and copied to the Ansible host when the save has succeeded. That
protects the cache, unless the delegate is the Ansible host, where `docker` and `containerd` save
into the cache itself, or the save is one of `crio`, which fails unnoticed.

## Main results

* `downloadContainer_whole`: with a delegate of its own a play leaves no truncated files.
* `downloadContainer_ends`: a run in which nothing fails completes where there are none.
* `downloadContainer_fails`, `downloadContainer_truncates`: and where there are some, no run does.
* `recovers_iff`: when a run in which nothing fails completes whatever failed before.
-/

namespace Kubespray.Download

open Tasks

variable {Image : Type} {rt : Runtime Image}

/-- There is a file that can be loaded. -/
def Loadable (files : Text → Option (Archive Image)) (file : Text) : Prop :=
  ∃ name image, files file = some (.saved name image)

/-- No file is truncated. -/
def Whole (cache : Cache Image) : Prop :=
  ∀ file, cache file ≠ some .truncated

/-- Another file that can be loaded. -/
theorem Whole.update {cache : Cache Image} (h : Whole cache) {archive : Archive Image}
    (harchive : archive ≠ .truncated) (file : Text) :
    Whole (Function.update cache file (some archive)) := by
  intro f
  by_cases heq : f = file
  · subst heq
    rw [Function.update_self]
    exact fun hsome => harchive (Option.some.inj hsome)
  · rw [Function.update_of_ne heq]
    exact h f

/-- Files that are not truncated can be loaded. -/
theorem Whole.loadable {cache : Cache Image} (h : Whole cache) {file : Text}
    (hsome : (cache file).isSome = true) : Loadable cache file := by
  obtain ⟨archive, harchive⟩ := Option.isSome_iff_exists.mp hsome
  cases archive with
  | saved name image => exact ⟨name, image, harchive⟩
  | truncated => exact absurd harchive (h file)

/-- Only complete files are copied to the cache: the delegate is not the Ansible host, and a failed
save is noticed. -/
def ContainerPlay.Protects (p : ContainerPlay) : Prop :=
  p.downloadLocalhost = false ∧ p.containerManager ≠ .crio

namespace ContainerRun

variable {r : ContainerRun Image} {required : Text → Bool} {cached : Bool}
  {s : Machines Image} {archive : Archive Image}

/-! ### Saving an image -/

/-- An image that is there is saved. -/
theorem archiveOf_of_has {node : Node Image} (hsaves : r.saves = true) (hhas : r.Has rt node) :
    ∃ image, r.archiveOf (node.images (rt.reference r.name)) = .saved r.name image := by
  obtain ⟨image, himage⟩ := Option.isSome_iff_exists.mp hhas
  exact ⟨image, by rw [himage, archiveOf, if_pos hsaves]⟩

/-- A save that fails leaves a truncated file. -/
theorem archiveOf_of_not_saves (hsaves : r.saves = false) (image : Option Image) :
    r.archiveOf image = .truncated := by
  cases image with
  | none => rfl
  | some image => rw [archiveOf, if_neg (Bool.eq_false_iff.mp hsaves)]

/-- The file is saved on the delegate. -/
theorem writeArchive_files (h : r.savesIntoCache = false) :
    ((r.writeArchive archive s).host r.delegate).files r.file = some archive := by
  rw [writeArchive, if_neg (Bool.eq_false_iff.mp h)]
  simp only [Function.update_self]
  exact Function.update_self ..

/-- The cache stays as it is. -/
theorem shared_writeArchive (h : r.savesIntoCache = false) :
    (r.writeArchive archive s).shared = s.shared := by
  rw [writeArchive, if_neg (Bool.eq_false_iff.mp h)]

/-- With a delegate of its own the play does not save into the cache. -/
theorem savesIntoCache_eq_false (h : r.play.downloadLocalhost = false) :
    r.savesIntoCache = false := by
  rw [savesIntoCache, h, Bool.false_and]

/-- A failed save is noticed. -/
theorem noticesSave_of_protects (h : r.play.Protects) : r.noticesSave = true := by
  rw [noticesSave, h.1, if_neg Bool.false_ne_true]
  exact decide_eq_true h.2

/-! ### No truncated files -/

/-- What is saved without a failure can be loaded. -/
theorem saveImage_whole (h : r.play.Protects) :
    Triple (Fleet.Holds Whole fun _ _ => True) (r.saveImage rt)
      (fun _ => Fleet.Holds Whole fun host node =>
        host = r.delegate → Loadable node.files r.file)
      (Fleet.Holds Whole fun _ _ => True) := by
  have hinto := savesIntoCache_eq_false h.1
  intro s hs
  have hwhole : Whole (r.writeArchive
      (r.archiveOf ((s.host r.delegate).images (rt.reference r.name))) s).shared := by
    rw [shared_writeArchive hinto]
    exact hs.1
  rw [saveImage]
  by_cases hsaved : r.saves = true ∧ r.Has rt (s.host r.delegate)
  · rw [if_neg fun hno => hno.2 hsaved]
    obtain ⟨image, himage⟩ := archiveOf_of_has hsaved.1 hsaved.2
    refine ⟨hwhole, ?_⟩
    rintro _ rfl
    exact ⟨r.name, image, by rw [writeArchive_files hinto, himage]⟩
  · rw [if_pos ⟨noticesSave_of_protects h, hsaved⟩]
    exact ⟨hwhole, fun _ => trivial⟩

/-- A file that can be loaded is copied. -/
theorem copyToCache_whole :
    Triple (Fleet.Holds Whole fun host node => host = r.delegate → Loadable node.files r.file)
      r.copyToCache (fun _ => Fleet.Holds Whole fun _ _ => True)
      (Fleet.Holds Whole fun _ _ => True) := by
  intro s hs
  obtain ⟨name, image, hfile⟩ := hs.2 r.delegate rfl
  rw [copyToCache]
  by_cases hcopy : r.play.downloadLocalhost = false ∧ r.delegate ∈ r.included
  · rw [if_pos hcopy, hfile]
    by_cases hcopies : r.copies = true
    · simp only [if_pos hcopies]
      exact ⟨hs.1.update (fun hno => by cases hno) _, fun _ => trivial⟩
    · simp only [if_neg hcopies]
      exact ⟨hs.1, fun _ => trivial⟩
  · rw [if_neg hcopy]
    exact ⟨hs.1, fun _ => trivial⟩

/-- So the tasks that fill the cache leave no truncated file there. -/
theorem fetch_whole (h : r.play.Protects) :
    Triple (Fleet.Holds Whole fun _ _ => True) (r.fetch rt required cached)
      (fun _ => Fleet.Holds Whole fun _ _ => True) (Fleet.Holds Whole fun _ _ => True) :=
  Triple.ite (fun _ => Triple.pure fun _ hs => hs) fun _ =>
    Triple.bind (Triple.ite (fun _ => Triple.onHosts_shared) fun _ => Triple.onHosts_shared)
      fun _ => Triple.ite (fun _ => (saveImage_whole h).bind fun _ => copyToCache_whole)
        fun _ => Triple.pure fun _ hs => hs

/-- The other tasks leave the cache. -/
theorem spread_whole :
    Triple (Fleet.Holds Whole fun _ _ => True) (r.spread rt required)
      (fun _ => Fleet.Holds Whole fun _ _ => True) (Fleet.Holds Whole fun _ _ => True) :=
  Triple.ite (fun _ => Triple.bind Triple.onAll_shared fun _ => Triple.onHosts_shared)
    fun _ => Triple.pure fun _ hs => hs

/-- **No truncated files.** With a delegate of its own, whose failed saves are noticed, a play
leaves no truncated file in the cache, wherever it fails. -/
theorem downloadContainer_whole (rt : Runtime Image) (h : r.play.Protects) :
    Triple (Fleet.Holds Whole fun _ _ => True) (r.downloadContainer rt)
      (fun _ => Fleet.Holds Whole fun _ _ => True) (Fleet.Holds Whole fun _ _ => True) := by
  refine downloadContainer_triple (fun _ _ hs => hs) fun s hs _ => ⟨_, hs, downloadImage_triple
    Triple.onHosts_shared (assertCached_keeps fun _ hs => hs) (fetch_whole h) spread_whole
    Triple.onAll_shared⟩

/-! ### A run in which nothing fails -/

/-- All commands of the run succeed. -/
structure NothingFails (r : ContainerRun Image) : Prop where
  pulls : ∀ host, ∃ image, r.pull host r.name = some image
  saves : r.saves = true
  copies : r.copies = true
  uploads : ∀ host, r.uploads host = true
  loads : ∀ host, r.loads host = true

variable {C : Cache Image → Prop} {N : Text → Node Image → Prop} {E : Machines Image → Prop}

/-- There is no digest to check. -/
theorem checkDigest_ends
    (hdigest : ∀ host ∈ r.included, r.item.pullByDigest = false ∨ required host = true) :
    Triple (Fleet.Holds C N) (r.checkDigest rt required) (fun _ => Fleet.Holds C N) E := by
  refine Triple.onHosts_ends (fun _ host node hin _ hnode => ⟨node, if_pos ?_, hnode⟩)
    fun _ _ _ h => h
  obtain hno | hreq := hdigest host hin
  · rw [hno, Bool.not_false, Bool.or_true, Bool.true_or]
  · rw [hreq, Bool.or_true, Bool.true_or, Bool.true_or]

/-- A missing file is no failure where it can be made. -/
theorem assertCached_ends (honce : r.play.downloadRunOnce = true) {P : Machines Image → Prop} :
    Triple P (r.assertCached cached) (fun _ => P) E := by
  rw [assertCached, if_neg fun h => by simp [honce] at h]
  exact Triple.pure fun _ h => h

/-- The delegate pulls the image. -/
theorem pullImage_ends (honce : r.play.downloadRunOnce = true)
    (hpull : ∀ host, ∃ image, r.pull host r.name = some image)
    (hN : ∀ node image, N r.delegate node →
      N r.delegate (node.withImage (rt.reference r.name) image)) :
    Triple (Fleet.Holds C N) (r.pullImage rt required)
      (fun _ => Fleet.Holds C fun host node =>
        N host node ∧ (host = r.delegate → r.Has rt node)) E := by
  rw [pullImage, if_pos honce]
  refine Triple.onHosts_ends (fun _ host node hmem _ hnode => ?_) fun host node hmem hnode =>
    ⟨hnode, fun heq => absurd (List.mem_singleton.mpr heq) hmem⟩
  obtain rfl := List.mem_singleton.mp hmem
  obtain ⟨image, himage⟩ := hpull r.delegate
  exact ⟨node.withImage (rt.reference r.name) image, by rw [himage]; rfl,
    hN node image hnode, fun _ => has_withImage node image⟩

/-- The delegate saves the image. -/
theorem saveImage_ends (hsaves : r.saves = true) (hlocal : r.play.downloadLocalhost = false) :
    Triple (Fleet.Holds C fun host node => True ∧ (host = r.delegate → r.Has rt node))
      (r.saveImage rt)
      (fun _ => Fleet.Holds C fun host node => host = r.delegate → Loadable node.files r.file)
      E := by
  intro s hs
  have hhas := (hs.2 r.delegate).2 rfl
  obtain ⟨image, himage⟩ := archiveOf_of_has hsaves hhas
  have hinto := savesIntoCache_eq_false hlocal
  rw [saveImage, if_neg fun hno => hno.2 ⟨hsaves, hhas⟩]
  refine ⟨by rw [shared_writeArchive hinto]; exact hs.1, ?_⟩
  rintro _ rfl
  exact ⟨r.name, image, by rw [writeArchive_files hinto, himage]⟩

/-- The file is copied to the cache. -/
theorem copyToCache_ends (hcopies : r.copies = true)
    (hlocal : r.play.downloadLocalhost = false) (hin : r.delegate ∈ r.included) :
    Triple (Fleet.Holds C fun host node => host = r.delegate → Loadable node.files r.file)
      r.copyToCache (fun _ => Fleet.Holds (fun cache => Loadable cache r.file) fun _ _ => True)
      E := by
  intro s hs
  obtain ⟨name, image, hfile⟩ := hs.2 r.delegate rfl
  rw [copyToCache, if_pos ⟨hlocal, hin⟩, hfile]
  simp only [if_pos hcopies]
  exact ⟨⟨name, image, Function.update_self ..⟩, fun _ => trivial⟩

/-- The file is brought to the hosts, and loaded. -/
theorem spread_ends (h : r.NothingFails) :
    Triple (Fleet.Holds (fun cache => Loadable cache r.file) fun _ _ => True)
      (r.spread rt required)
      (fun _ => Fleet.Holds (fun cache => Loadable cache r.file) fun _ _ => True) E := by
  refine Triple.ite (fun _ => Triple.bind (Triple.onAll (M := fun host node =>
    host ∈ r.included → required host = true → Loadable node.files r.file) ?_
      fun host _ hmem _ hin => absurd hin hmem) fun _ => Triple.onHosts_ends ?_
      fun _ _ _ _ => trivial) fun _ => Triple.pure fun _ hs => hs
  · rintro cache host node _ ⟨name, image, hcache⟩ - - hreq
    simp only [hcache, hreq, h.uploads host, Bool.and_self, if_pos]
    exact ⟨name, image, Function.update_self ..⟩
  · intro _ host node hin _ hnode
    by_cases hreq : required host = true
    · obtain ⟨name, image, hfile⟩ := hnode hin hreq
      exact ⟨node.withImage (rt.reference (r.loadedName name)) image,
        by simp only [if_pos hreq, hfile, if_pos (h.loads host)], trivial⟩
    · exact ⟨node, if_neg hreq, trivial⟩

/-- **A run in which nothing fails** completes where no file is truncated and the delegate is one
of the hosts. -/
theorem downloadContainer_ends (rt : Runtime Image) (h : r.NothingFails)
    (honce : r.play.downloadRunOnce = true) (hlocal : r.play.downloadLocalhost = false)
    (hin : r.included ≠ [] → r.delegate ∈ r.included) :
    Triple (Fleet.Holds Whole fun _ node =>
        r.item.pullByDigest = false ∨ r.pullRequired rt node = true) (r.downloadContainer rt)
      (fun _ s => r.included ≠ [] → Loadable s.shared r.file) fun _ => False := by
  have hforce : r.play.forceCache = true := if_pos honce
  refine downloadContainer_triple (fun hno _ _ hne => absurd hno hne) fun s hs hne =>
    ⟨Fleet.Holds (fun cache => Whole cache ∧ (cache r.file).isSome = r.isCached s) fun _ _ => True,
      ⟨⟨hs.1, ?start⟩, fun _ => trivial⟩,
      downloadImage_triple (checkDigest_ends fun host _ => hs.2 host) (assertCached_ends honce)
        (fetch_triple honce ?found (fun _ => pullImage_ends honce h.pulls fun _ _ _ => trivial)
          (saveImage_ends h.saves hlocal) (copyToCache_ends h.copies hlocal (hin hne)))
        (spread_ends h) (Triple.onAll_shared.conseq (fun _ h => h) (fun _ _ h _ => h.1)
          fun _ h => h)⟩
  case start => rw [isCached, hforce, Bool.true_and]
  case found => exact fun hcached t ht => ⟨ht.1.1.loadable (ht.1.2.trans hcached), ht.2⟩

/-! ### Files that are never replaced -/

/-- The host has neither the image nor a file to load it from. -/
def Lacks (rt : Runtime Image) (r : ContainerRun Image) (h host : Text) (node : Node Image) :
    Prop :=
  host = h → node.images (rt.reference r.name) = none ∧ ¬ Loadable node.files r.file

variable {h host : Text} {node : Node Image}

/-- Such a host requires the image. -/
theorem pullRequired_of_lacks (hnode : Lacks rt r h h node) : r.pullRequired rt node = true := by
  by_contra hno
  have hhas := has_of_not_pullRequired (Bool.eq_false_iff.mpr hno)
  rw [Has, (hnode rfl).1] at hhas
  cases hhas

/-- It gets a file that cannot be loaded, or none. -/
theorem Lacks.withFile (hnode : Lacks rt r h host node) {file : Option (Archive Image)}
    (hfile : ∀ name image, file ≠ some (.saved name image)) :
    Lacks rt r h host (node.withFile r.file file) := by
  intro heq
  refine ⟨(hnode heq).1, ?_⟩
  rintro ⟨name, image, hsaved⟩
  change Function.update node.files r.file file r.file = _ at hsaved
  rw [Function.update_self] at hsaved
  exact hfile name image hsaved

/-- The upload brings no file that can be loaded. -/
theorem uploadImage_lacks (hC : ∀ cache : Cache Image, C cache → ¬ Loadable cache r.file) :
    Triple (Fleet.Holds C (Lacks rt r h)) (r.uploadImage required)
      (fun _ => Fleet.Holds C (Lacks rt r h)) E := by
  refine Triple.onAll (fun cache host node _ hcache hnode => ?_) fun _ _ _ h => h
  cases harchive : cache r.file with
  | none => exact hnode
  | some archive =>
      simp only
      split_ifs
      · refine hnode.withFile fun name image hsaved => hC cache hcache ⟨name, image, ?_⟩
        rw [harchive, hsaved]
      · exact hnode

/-- The load fails on the host. -/
theorem loadImage_fails (hin : h ∈ r.included) (hreq : required h = true)
    {Q : PUnit → Machines Image → Prop} :
    Triple (Fleet.Holds C (Lacks rt r h)) (r.loadImage rt required) Q fun _ => True := by
  refine Triple.onHosts_fails hin fun _ node _ hnode => ?_
  simp only [if_pos hreq]
  cases hfile : node.files r.file with
  | none => rfl
  | some archive =>
      cases archive with
      | truncated => rfl
      | saved name image => exact absurd ⟨name, image, hfile⟩ (hnode rfl).2

/-- What the delegate gets is of no use to another host. -/
theorem pullImage_lacks (honce : r.play.downloadRunOnce = true) (hne : h ≠ r.delegate) :
    Triple (Fleet.Holds C (Lacks rt r h)) (r.pullImage rt required)
      (fun _ => Fleet.Holds C (Lacks rt r h)) (Fleet.Holds C (Lacks rt r h)) := by
  rw [pullImage, if_pos honce]
  refine Triple.onHosts (fun _ host _ _ hmem _ _ _ heq => ?_) (fun _ _ _ h => h)
    (fun _ _ h => h) fun _ _ h => h
  exact absurd (heq.symm.trans (List.mem_singleton.mp hmem)) hne

/-- Nor is what is saved on the delegate. -/
theorem writeArchive_lacks (hne : h ≠ r.delegate) (hs : ∀ host, Lacks rt r h host (s.host host)) :
    ∀ host, Lacks rt r h host ((r.writeArchive archive s).host host) := by
  intro host heq
  subst heq
  rw [writeArchive]
  split_ifs
  · exact hs host rfl
  · simp only [Function.update_of_ne hne]
    exact hs host rfl

/-- Whether a run can put a file into the cache. -/
def Fills (r : ContainerRun Image) : Prop :=
  r.savesIntoCache = true ∨ (r.play.downloadLocalhost = false ∧ r.delegate ∈ r.included)

/-- What is saved on the delegate stays there. -/
theorem saveImage_lacks (hinto : r.savesIntoCache = false) (hne : h ≠ r.delegate) :
    Triple (Fleet.Holds C (Lacks rt r h)) (r.saveImage rt)
      (fun _ => Fleet.Holds C (Lacks rt r h)) (Fleet.Holds C (Lacks rt r h)) := by
  intro s hs
  have hwritten : Fleet.Holds C (Lacks rt r h)
      (r.writeArchive (r.archiveOf ((s.host r.delegate).images (rt.reference r.name))) s) :=
    ⟨by rw [shared_writeArchive hinto]; exact hs.1, writeArchive_lacks hne hs.2⟩
  rw [saveImage]
  split_ifs
  · exact hwritten
  · exact hwritten

/-- It is not copied where the delegate is not a host that includes the item. -/
theorem copyToCache_skips {P : Machines Image → Prop}
    (h : ¬ (r.play.downloadLocalhost = false ∧ r.delegate ∈ r.included)) :
    Triple P r.copyToCache (fun _ => P) E := by
  intro s hs
  rw [copyToCache, if_neg h]
  exact hs

/-- **A file that cannot be loaded** stays in the cache, and so does a missing one where the run
cannot make it: the run fails on the hosts that require the image. -/
theorem downloadContainer_fails (honce : r.play.downloadRunOnce = true)
    (hdigest : r.item.pullByDigest = false) (hin : h ∈ r.included) (hne : h ≠ r.delegate) :
    Triple (Fleet.Holds (fun cache => ¬ Loadable cache r.file ∧
        ((cache r.file).isSome = true ∨ ¬ r.Fills)) (Lacks rt r h))
      (r.downloadContainer rt) (fun _ _ => False) fun _ => True := by
  have hforce : r.play.forceCache = true := if_pos honce
  refine downloadContainer_triple (fun hno => absurd hin (by simp [hno])) fun s hs _ =>
    ⟨Fleet.Holds (fun cache => ¬ Loadable cache r.file) (Lacks rt r h), ⟨hs.1.1, hs.2⟩,
      downloadImage_triple (R := fun _ => False) (checkDigest_ends fun _ _ => Or.inl hdigest)
        (assertCached_ends honce) ?fetch
        (spread_triple hforce (uploadImage_lacks fun _ hcache => hcache)
          (loadImage_fails hin (pullRequired_of_lacks (hs.2 h)))) fun _ hno => hno.elim⟩
  case fetch =>
    by_cases hcached : (s.shared r.file).isSome = true
    · have his : r.isCached s = true := by rw [isCached, hforce, hcached, Bool.and_self]
      exact Triple.ite (fun _ => Triple.pure fun _ h => h) fun hno => absurd his hno
    · have hfills := hs.1.2.resolve_left hcached
      rw [Fills, not_or, Bool.not_eq_true] at hfills
      exact fetch_triple honce (fun _ _ h => h) (fun _ => (pullImage_lacks honce hne).weaken)
        (saveImage_lacks hfills.1 hne).weaken (copyToCache_skips hfills.2)

/-- What is loaded without a file that can be loaded is nothing. -/
theorem loadImage_lacks :
    Triple (Fleet.Holds C (Lacks rt r h)) (r.loadImage rt required)
      (fun _ => Fleet.Holds C (Lacks rt r h)) (Fleet.Holds C (Lacks rt r h)) := by
  refine Triple.onHosts (fun _ host node node' _ _ hnode htask heq => ?_) (fun _ _ _ h => h)
    (fun _ _ h => h) fun _ _ h => h
  by_cases hreq : required host = true
  · rw [if_pos hreq] at htask
    cases hfile : node.files r.file with
    | none => simp [hfile] at htask
    | some archive =>
        cases archive with
        | truncated => simp [hfile] at htask
        | saved name image => exact absurd ⟨name, image, hfile⟩ (hnode heq).2
  · rw [if_neg hreq] at htask
    cases htask
    exact hnode heq

/-- A failed save is not noticed unless the play protects the cache. -/
theorem noticesSave_eq_false (hfills : r.Fills) (hprotects : ¬ r.play.Protects)
    (hinto : r.savesIntoCache = false) : r.noticesSave = false := by
  have hlocal := (hfills.resolve_left (Bool.eq_false_iff.mp hinto)).1
  have hcrio : r.play.containerManager = .crio := by
    by_contra hno
    exact hprotects ⟨hlocal, hno⟩
  rw [noticesSave, hlocal, if_neg Bool.false_ne_true, hcrio]
  rfl

/-- There is a truncated file: in the cache, or on the delegate. -/
def Truncated (rt : Runtime Image) (r : ContainerRun Image) (h : Text) :
    Machines Image → Prop :=
  Fleet.Holds (fun cache => r.savesIntoCache = true → cache r.file = some .truncated)
    fun host node => Lacks rt r h host node ∧
      (host = r.delegate → r.savesIntoCache = false → node.files r.file = some .truncated)

/-- A failed save leaves a truncated file. -/
theorem saveImage_truncates (hsaves : r.saves = false) (hne : h ≠ r.delegate)
    (hfills : r.Fills) (hprotects : ¬ r.play.Protects) {D : Text → Node Image → Prop} :
    Triple (Fleet.Holds C fun host node => Lacks rt r h host node ∧ D host node)
      (r.saveImage rt) (fun _ => Truncated rt r h)
      (Fleet.Holds (fun cache => cache r.file = some .truncated) (Lacks rt r h)) := by
  intro s hs
  have hlacks : ∀ host, Lacks rt r h host ((r.writeArchive .truncated s).host host) :=
    writeArchive_lacks hne fun host => (hs.2 host).1
  rw [saveImage, archiveOf_of_not_saves hsaves]
  cases hinto : r.savesIntoCache with
  | true =>
      have hshared : (r.writeArchive .truncated s).shared r.file = some .truncated := by
        rw [writeArchive, if_pos hinto]
        exact Function.update_self ..
      split_ifs
      · exact ⟨hshared, hlacks⟩
      · exact ⟨fun _ => hshared, fun host => ⟨hlacks host, fun _ hno => by simp [hinto] at hno⟩⟩
  | false =>
      rw [if_neg fun hno => by simp [noticesSave_eq_false hfills hprotects hinto] at hno]
      refine ⟨fun hno => by simp [hinto] at hno, fun host => ⟨hlacks host, ?_⟩⟩
      rintro rfl -
      exact writeArchive_files hinto

/-- It ends up in the cache. -/
theorem copyToCache_truncates (hcopies : r.copies = true) (hfills : r.Fills)
    {E : Machines Image → Prop} :
    Triple (Truncated rt r h) r.copyToCache
      (fun _ => Fleet.Holds (fun cache => cache r.file = some .truncated) (Lacks rt r h)) E := by
  intro s hs
  have hlacks : ∀ host, Lacks rt r h host (s.host host) := fun host => (hs.2 host).1
  rw [copyToCache]
  cases hinto : r.savesIntoCache with
  | true =>
      have hlocal := (Bool.and_eq_true_iff.mp hinto).1
      rw [if_neg fun hno => by simp [hlocal] at hno]
      exact ⟨hs.1 hinto, hlacks⟩
  | false =>
      rw [if_pos (hfills.resolve_left (Bool.eq_false_iff.mp hinto)),
        (hs.2 r.delegate).2 rfl hinto]
      simp only [if_pos hcopies]
      exact ⟨Function.update_self .., hlacks⟩

/-- **A failed save** leaves a truncated file in the cache, where it goes into the cache or is not
noticed. -/
theorem downloadContainer_truncates (rt : Runtime Image) (honce : r.play.downloadRunOnce = true)
    (hdigest : r.item.pullByDigest = false)
    (hpull : ∀ host, ∃ image, r.pull host r.name = some image) (hsaves : r.saves = false)
    (hcopies : r.copies = true) (hin : h ∈ r.included) (hne : h ≠ r.delegate)
    (hfills : r.Fills) (hprotects : ¬ r.play.Protects) :
    Triple (Fleet.Holds (fun cache => cache r.file = none) (Lacks rt r h))
      (r.downloadContainer rt)
      (fun _ => Fleet.Holds (fun cache => cache r.file = some .truncated) (Lacks rt r h))
      (Fleet.Holds (fun cache => cache r.file = some .truncated) (Lacks rt r h)) := by
  refine downloadContainer_triple (fun hno => absurd hin (by simp [hno])) fun s hs _ =>
    ⟨Fleet.Holds (fun cache => cache r.file = none) (Lacks rt r h), hs,
      downloadImage_triple (checkDigest_ends fun _ _ => Or.inl hdigest) (assertCached_ends honce)
        (fetch_triple honce ?found
          (fun _ => pullImage_ends honce hpull fun _ _ _ heq => absurd heq.symm hne)
          (saveImage_truncates hsaves hne hfills hprotects) (copyToCache_truncates hcopies hfills))
        (Triple.ite (fun _ => (uploadImage_lacks ?unloadable).bind fun _ => loadImage_lacks)
          fun _ => Triple.pure fun _ h => h)
        (Triple.onAll (fun _ _ _ _ _ hnode => ?remove) fun _ _ _ h => h)⟩
  case found =>
    intro hcached
    rw [isCached, hs.1, Option.isSome_none, Bool.and_false] at hcached
    cases hcached
  case unloadable =>
    rintro cache hcache ⟨name, image, hsaved⟩
    rw [hcache] at hsaved
    cases hsaved
  case remove =>
    split_ifs
    · exact hnode
    · exact hnode.withFile fun name image hno => by cases hno

end ContainerRun

/-! ### Recovery -/

/-- No files yet: the hosts have some images. -/
def fresh (images : Text → Text → Option Image) : Machines Image where
  host host := ⟨images host, fun _ => none⟩
  shared _ := none

/-- A run with one answer to all pulls, in which at most the save fails. -/
def attempt (p : ContainerPlay) (item : ContainerItem) (image : Image) (saves : Bool) :
    ContainerRun Image where
  play := p
  item := item
  pull _ _ := some image
  saves := saves
  copies := true
  uploads _ := true
  loads _ := true

/-- An attempt whose save does not fail. -/
theorem nothingFails_attempt (p : ContainerPlay) (item : ContainerItem) (image : Image) :
    (attempt p item image true).NothingFails :=
  ⟨fun _ => ⟨image, rfl⟩, rfl, rfl, fun _ => rfl, fun _ => rfl⟩

/-- When some host includes an item, the delegate does so if it is a host of the play. -/
theorem delegate_mem_including {p : ContainerPlay} {item : ContainerItem} {h : Text}
    (honce : p.downloadRunOnce = true) (hin : h ∈ p.including item) :
    p.downloadDelegate ∈ p.including item ↔ p.downloadDelegate ∈ p.hosts := by
  rw [ContainerPlay.including] at hin ⊢
  split_ifs at hin ⊢ with hcontainer
  · rw [DownloadPlay.included, List.mem_filter] at hin ⊢
    refine and_iff_left ?_
    have hinc := hin.2
    rw [DownloadPlay.includes, Bool.and_eq_true] at hinc ⊢
    exact ⟨hinc.1, by simp [honce]⟩
  · cases hin

/-- A run for the item in which nothing fails completes, whatever failed in the runs of the play
before it. -/
def Recovers (rt : Runtime Image) (p : ContainerPlay) (item : ContainerItem) : Prop :=
  ∀ (images : Text → Text → Option Image) (runs : List (ContainerRun Image))
    (last : ContainerRun Image), (∀ r ∈ runs, r.play = p) → last.play = p → last.item = item →
    last.NothingFails →
    ∃ s', last.downloadContainer rt (afterAll rt runs (fresh images)) = .ok ⟨⟩ s'

/-- **Recovery.** In the mode that pulls once and pushes many times a play recovers exactly when
the delegate is one of its hosts and not the Ansible host, and failed saves are noticed there. -/
theorem recovers_iff [Nonempty Image] (rt : Runtime Image) (p : ContainerPlay)
    (item : ContainerItem) (honce : p.downloadRunOnce = true)
    (hdigest : item.pullByDigest = false) {h : Text} (hin : h ∈ p.including item)
    (hne : h ≠ p.downloadDelegate) :
    Recovers rt p item ↔ p.Protects ∧ p.downloadDelegate ∈ p.hosts := by
  constructor
  · intro hall
    by_contra hno
    obtain ⟨image⟩ := ‹Nonempty Image›
    have hlacks : ∀ host, ContainerRun.Lacks rt (attempt p item image true) h host
        ((fresh fun _ _ => none : Machines Image).host host) := fun _ _ =>
      ⟨rfl, fun ⟨_, _, hfile⟩ => by cases hfile⟩
    have hfails : ∀ runs : List (ContainerRun Image), (∀ r ∈ runs, r.play = p) →
        ¬ Fleet.Holds (fun cache => ¬ Loadable cache (attempt p item image true).file ∧
          ((cache (attempt p item image true).file).isSome = true ∨
            ¬ (attempt p item image true).Fills))
          (ContainerRun.Lacks rt (attempt p item image true) h)
          (afterAll rt runs (fresh fun _ _ => none)) := by
      intro runs hruns hs
      obtain ⟨s', hok⟩ := hall _ runs _ hruns rfl rfl (nothingFails_attempt p item image)
      exact (ContainerRun.downloadContainer_fails honce hdigest hin hne).of_ok
        hs hok
    by_cases hfills : (attempt p item image true).Fills
    · have hprotects : ¬ p.Protects := by
        intro hprotects
        refine hno ⟨hprotects, (delegate_mem_including honce hin).mp (hfills.resolve_left ?_).2⟩
        rw [ContainerRun.savesIntoCache_eq_false hprotects.1]
        exact Bool.false_ne_true
      have hafter := (ContainerRun.downloadContainer_truncates rt
        (r := attempt p item image false) honce hdigest (fun _ => ⟨image, rfl⟩) rfl rfl hin hne
        hfills hprotects).left (fun _ _ h => h) (fun _ h => h) ⟨rfl, hlacks⟩
      refine hfails [attempt p item image false] (by simp [attempt]) ⟨⟨?_, Or.inl ?_⟩, hafter.2⟩
      · rintro ⟨name, i, hsaved⟩
        cases hafter.1.symm.trans hsaved
      · exact Option.isSome_iff_exists.mpr ⟨_, hafter.1⟩
    · exact hfails [] (fun _ hr => by cases hr)
        ⟨⟨fun ⟨_, _, hfile⟩ => (by cases hfile), Or.inr hfills⟩, hlacks⟩
  · rintro ⟨hprotects, hmem⟩ images runs last hruns rfl rfl hnothing
    have hwhole : Fleet.Holds Whole (fun _ _ => True) (afterAll rt runs (fresh images)) :=
      holds_along (fun r hr => ContainerRun.downloadContainer_whole rt
        (by rw [hruns r hr]; exact hprotects)) ⟨fun _ hno => (by cases hno), fun _ => trivial⟩
    obtain ⟨⟨⟩, s', hok, -⟩ := (last.downloadContainer_ends rt hnothing honce hprotects.1 fun _ =>
      (delegate_mem_including honce hin).mpr hmem).exists_ok ⟨hwhole.1, fun _ => Or.inl hdigest⟩
    exact ⟨s', hok⟩

/-- A runtime that knows an image by its familiar name, and lists all its images. -/
def docker (Image : Type) : Runtime Image where
  reference := familiar
  lists images name := (images name).isSome
  isSome_of_lists _ _ h := h

/-- An item for all hosts. -/
def image (repo tag : String) : ContainerItem where
  enabled := true
  sha256 := []
  groups := ["k8s_cluster".toList]
  repo := repo.toList
  tag := tag.toList

/-- Images are pulled once, on `node1`, and pushed to `node1` and `node2`. -/
def pushMany (localhost : Bool) : ContainerPlay where
  hosts := ["node1".toList, "node2".toList]
  groupNames _ := ["k8s_cluster".toList]
  firstControlPlane := "node1".toList
  skipDownloads := false
  downloadRunOnce := true
  downloadForceCache := false
  downloadLocalhost := localhost
  downloadContainer := true
  downloadAlwaysPull := false
  downloadKeepRemoteCache := false
  containerManager := .containerd
  containerManagerOnLocalhost := .docker

/-- The same play recovers with `node1` for the delegate, and not with the Ansible host. -/
theorem recovers_node1 :
    Recovers (docker Text) (pushMany false) (image "k8s.gcr.io/pause" "3.6") ∧
      ¬ Recovers (docker Text) (pushMany true) (image "k8s.gcr.io/pause" "3.6") :=
  ⟨(recovers_iff (docker Text) (pushMany false) (image "k8s.gcr.io/pause" "3.6") rfl rfl
      (h := "node2".toList) (by decide) (by decide)).mpr ⟨⟨rfl, by decide⟩, by decide⟩,
    fun h => by
      cases ((recovers_iff (docker Text) (pushMany true) (image "k8s.gcr.io/pause" "3.6") rfl rfl
        (h := "node2".toList) (by decide) (by decide)).mp h).1.1⟩

end Kubespray.Download
