import Kubespray.Download.File
import Kubespray.Library.Tasks
import Mathlib.Data.Set.Function

/-!
# Downloading Container Images

`download_container.yml` brings the image of an item to every host that includes it. A host that
has the image already is left out; the others pull it, or, with `download_force_cache`, load the
file that lies in the cache of the Ansible host. With `download_run_once` a missing file is made
on the delegate: the image is pulled and saved there, and copied to the Ansible host, where the
delegate is one of the hosts; with `download_localhost` the delegate is the Ansible host, and
`docker` and `containerd` save straight into the cache.

The file of an image is named by the name of the image with `_` for some of its characters, and a
file that is there counts as the image. `failed_when: not upload_image` never holds, since the
result of a task is not empty, so that a failed upload goes unnoticed until the image is loaded.

The tasks run over and over on caches and hosts that earlier runs have left, and a run ends
wherever one of its tasks fails.

## Main results

* `sound_afterAll`: through all runs, every file is the image that it is named for, or is
  truncated, unless images share a file.
* `genuine_of_ok`: a run that completes leaves all its hosts with the image.
-/

namespace Kubespray.Download

open Tasks

/-- `container_manager`. -/
inductive ContainerManager
  | docker
  | containerd
  | crio
deriving DecidableEq

/-- An entry of `downloads`, for a container image. -/
structure ContainerItem extends Item where
  repo : Text
  tag : Text

/-- The play that runs the role, and its settings for images. -/
structure ContainerPlay extends DownloadPlay where
  downloadContainer : Bool
  downloadAlwaysPull : Bool
  downloadKeepRemoteCache : Bool
  containerManager : ContainerManager
  containerManagerOnLocalhost : ContainerManager

/-- A file under `images`: an image that was saved under a name, or what a failed command left. -/
inductive Archive (Image : Type)
  | saved (name : Text) (image : Image)
  | truncated

/-- A host: its images, by the names that it knows them by, and the files at
`image_path_final`. -/
structure Node (Image : Type) where
  images : Text → Option Image
  files : Text → Option (Archive Image)

/-- The files at `image_path_cached`. -/
abbrev Cache (Image : Type) := Text → Option (Archive Image)

/-- The hosts and the cache of the Ansible host. -/
abbrev Machines (Image : Type) := Fleet Text (Node Image) (Cache Image)

variable {Image : Type}

/-- The node has the image. -/
def Node.withImage (node : Node Image) (name : Text) (image : Image) : Node Image :=
  { node with images := Function.update node.images name (some image) }

/-- The node has the file, or none. -/
def Node.withFile (node : Node Image) (name : Text) (file : Option (Archive Image)) :
    Node Image :=
  { node with files := Function.update node.files name file }

/-- `regex_replace('^docker\.io/(library/)?','')`. -/
def familiar (name : Text) : Text :=
  if "docker.io/library/".toList.isPrefixOf name then name.drop 18
  else if "docker.io/".toList.isPrefixOf name then name.drop 10
  else name

/-- The container runtime of the hosts: the name that it knows an image by, and whether a name is
among those that `image_info_command` prints of some images. -/
structure Runtime (Image : Type) where
  reference : Text → Text
  lists : (Text → Option Image) → Text → Bool
  isSome_of_lists : ∀ images name, lists images (familiar name) = true →
    (images (reference name)).isSome = true

namespace ContainerItem

variable (item : ContainerItem)

/-- `pull_by_digest`. -/
def pullByDigest : Bool :=
  !item.sha256.isEmpty

/-- `{{ download.repo }}:{{ download.tag }}`. -/
def tagged : Text :=
  item.repo ++ ':' :: item.tag

/-- `image_reponame`. -/
def imageReponame : Text :=
  if item.pullByDigest then item.repo ++ "@sha256:".toList ++ item.sha256 else item.tagged

end ContainerItem

/-- The hosts of a play that include `download_container.yml` for an item. -/
def ContainerPlay.including (p : ContainerPlay) (item : ContainerItem) : List Text :=
  if p.downloadContainer then p.included item.toItem else []

/-- `regex_replace('/|\0|:', '_')`, on a character. -/
def fileChar (c : Char) : Char :=
  if c = '/' ∨ c = '\x00' ∨ c = ':' then '_' else c

/-- `image_filename`. -/
def imageFilename (name : Text) : Text :=
  name.map fileChar ++ ".tar".toList

/-- The tasks that may fail. -/
inductive Failure
  | digest
  | notCached
  | pull
  | save
  | copy
  | load
deriving DecidableEq

/-- A run of the tasks for an item: the play, and what comes of its commands, their retries
included. -/
structure ContainerRun (Image : Type) where
  play : ContainerPlay
  item : ContainerItem
  /-- The image that a host gets for a name. -/
  pull : Text → Text → Option Image
  saves : Bool
  copies : Bool
  uploads : Text → Bool
  loads : Text → Bool

namespace ContainerRun

variable (rt : Runtime Image) (r : ContainerRun Image)

/-- `download_delegate`. -/
def delegate : Text :=
  r.play.downloadDelegate

/-- `image_reponame`. -/
def name : Text :=
  r.item.imageReponame

/-- `image_filename`. -/
def file : Text :=
  imageFilename r.name

/-- The hosts that include `download_container.yml`. -/
def included : List Text :=
  r.play.including r.item

/-- The node has the image of the item. -/
abbrev Has (node : Node Image) : Prop :=
  (node.images (rt.reference r.name)).isSome = true

/-- `pull_required`. -/
def pullRequired (node : Node Image) : Bool :=
  r.play.downloadAlwaysPull || !rt.lists node.images (familiar r.name)

/-- `check_pull_required | Check that the local digest sha256 corresponds to the given image
tag`. -/
def checkDigest (required : Text → Bool) : EStateM Failure (Machines Image) PUnit :=
  onHosts r.included .digest fun _ host node =>
    if r.play.downloadAlwaysPull || required host || !r.item.pullByDigest ||
        rt.lists node.images r.item.tagged then
      some node
    else none

/-- `Stop if image not in cache on ansible host when download_force_cache=true`. -/
def assertCached (isCached : Bool) : EStateM Failure (Machines Image) PUnit :=
  if r.play.forceCache ∧ r.play.downloadRunOnce = false ∧ isCached = false then
    throw .notCached
  else pure ⟨⟩

/-- `Download image if required`. -/
def pullImage (required : Text → Bool) : EStateM Failure (Machines Image) PUnit :=
  if r.play.downloadRunOnce then
    onHost r.delegate .pull fun _ node =>
      (r.pull r.delegate r.name).map fun image => node.withImage (rt.reference r.name) image
  else
    onHosts r.included .pull fun _ host node =>
      if required host then
        (r.pull host r.name).map fun image => node.withImage (rt.reference r.name) image
      else some node

/-- Whether `image_save_command_on_localhost` writes to `image_path_cached`: with `crio` it
writes to `image_path_final`, as `image_save_command` does. -/
def savesIntoCache : Bool :=
  r.play.downloadLocalhost && r.play.containerManagerOnLocalhost ≠ .crio

/-- Whether a failed save is noticed: `failed_when: container_save_status.stderr` does not hold
where the command sends the errors to `/dev/null`, as with `crio`. -/
def noticesSave : Bool :=
  (if r.play.downloadLocalhost then r.play.containerManagerOnLocalhost
    else r.play.containerManager) ≠ .crio

/-- What `image_save_command` makes of an image. -/
def archiveOf (image : Option Image) : Archive Image :=
  match image with
  | some image => if r.saves then .saved r.name image else .truncated
  | none => .truncated

/-- `Save and compress image`, on the delegate, writes a file in any case. -/
def writeArchive (archive : Archive Image) (s : Machines Image) : Machines Image :=
  if r.savesIntoCache then { s with shared := Function.update s.shared r.file (some archive) }
  else { s with
    host := Function.update s.host r.delegate
      ((s.host r.delegate).withFile r.file (some archive)) }

/-- `Save and compress image`. -/
def saveImage : EStateM Failure (Machines Image) PUnit := fun s =>
  let s' := r.writeArchive (r.archiveOf ((s.host r.delegate).images (rt.reference r.name))) s
  if r.noticesSave ∧ ¬ (r.saves ∧ r.Has rt (s.host r.delegate)) then .error .save s'
  else .ok ⟨⟩ s'

/-- `Copy image to ansible host cache`, where `download_delegate == inventory_hostname`. -/
def copyToCache : EStateM Failure (Machines Image) PUnit := fun s =>
  if r.play.downloadLocalhost = false ∧ r.delegate ∈ r.included then
    match (s.host r.delegate).files r.file with
    | some archive =>
      if r.copies then
        .ok ⟨⟩ { s with shared := Function.update s.shared r.file (some archive) }
      else .error .copy s
    | none => .error .copy s
  else .ok ⟨⟩ s

/-- `Upload image to node if it is cached`. -/
def uploadImage (required : Text → Bool) : EStateM Failure (Machines Image) PUnit :=
  onAll r.included fun cache host node =>
    match cache r.file with
    | some archive =>
      if required host && r.uploads host then node.withFile r.file (some archive) else node
    | none => node

/-- The name under which an image is loaded: `skopeo` names it. -/
def loadedName (saved : Text) : Text :=
  if r.play.containerManager = .crio then r.name else saved

/-- `Load image into the local container registry`. -/
def loadImage (required : Text → Bool) : EStateM Failure (Machines Image) PUnit :=
  onHosts r.included .load fun _ host node =>
    if required host then
      match node.files r.file with
      | some (.saved name image) =>
        if r.loads host then some (node.withImage (rt.reference (r.loadedName name)) image)
        else none
      | _ => none
    else some node

/-- `Remove container image from cache`. -/
def removeFile : EStateM Failure (Machines Image) PUnit :=
  onAll r.included fun _ _ node =>
    if r.play.downloadKeepRemoteCache then node else node.withFile r.file none

/-- The tasks that fill the cache, or pull the image where it is needed. -/
def fetch (required : Text → Bool) (isCached : Bool) : EStateM Failure (Machines Image) PUnit :=
  if isCached then pure ⟨⟩
  else do
    r.pullImage rt required
    if r.play.downloadRunOnce then do
      r.saveImage rt
      r.copyToCache
    else pure ⟨⟩

/-- The tasks that bring the image from the cache to the hosts. -/
def spread (required : Text → Bool) : EStateM Failure (Machines Image) PUnit :=
  if r.play.forceCache then do
    r.uploadImage required
    r.loadImage rt required
  else pure ⟨⟩

/-- `download_container.yml`, with the facts that its first tasks have set. -/
def downloadImage (required : Text → Bool) (isCached : Bool) :
    EStateM Failure (Machines Image) PUnit := do
  r.checkDigest rt required
  r.assertCached isCached
  r.fetch rt required isCached
  r.spread rt required
  r.removeFile

/-- `image_is_cached`. -/
def isCached (s : Machines Image) : Bool :=
  r.play.forceCache && (s.shared r.file).isSome

/-- `download_container.yml`, on the hosts that include it. -/
def downloadContainer : EStateM Failure (Machines Image) PUnit := do
  let s ← get
  if r.included = [] then pure ⟨⟩
  else r.downloadImage rt (fun host => r.pullRequired rt (s.host host)) (r.isCached s)

/-- What a run leaves. -/
def after (s : Machines Image) : Machines Image :=
  left (r.downloadContainer rt s)

end ContainerRun

/-- What many runs leave. -/
def afterAll (rt : Runtime Image) (runs : List (ContainerRun Image)) (s : Machines Image) :
    Machines Image :=
  runs.foldl (fun s r => r.after rt s) s

/-! ### Sound files -/

section Sound

variable (rt : Runtime Image) (origin : Text → Image → Prop) (names : Set Text)

/-- The file is an image of the name, or is truncated. -/
def Archive.Good (name : Text) (archive : Archive Image) : Prop :=
  archive = .truncated ∨ ∃ image, archive = .saved name image ∧ origin (rt.reference name) image

/-- The files are images of the names that they are named for. -/
def GoodFiles (files : Text → Option (Archive Image)) : Prop :=
  ∀ name ∈ names, ∀ archive, files (imageFilename name) = some archive →
    archive.Good rt origin name

/-- The files of a node are good, and its images are genuine. -/
structure SoundNode (node : Node Image) : Prop where
  files : GoodFiles rt origin names node.files
  images : ∀ name image, node.images name = some image → origin name image

/-- All files are good, and all images are genuine. -/
def Sound : Machines Image → Prop :=
  Fleet.Holds (GoodFiles rt origin names) fun _ => SoundNode rt origin names

end Sound

variable {rt : Runtime Image} {origin : Text → Image → Prop} {names : Set Text}

/-- A file of a name of its own. -/
theorem GoodFiles.update (hinj : Set.InjOn imageFilename names)
    {files : Text → Option (Archive Image)} (h : GoodFiles rt origin names files) {name : Text}
    (hname : name ∈ names) {file : Option (Archive Image)}
    (hfile : ∀ archive, file = some archive → archive.Good rt origin name) :
    GoodFiles rt origin names (Function.update files (imageFilename name) file) := by
  intro n hn archive harchive
  by_cases heq : imageFilename n = imageFilename name
  · obtain rfl := hinj hn hname heq
    rw [Function.update_self] at harchive
    exact hfile archive harchive
  · rw [Function.update_of_ne heq] at harchive
    exact h n hn archive harchive

/-- A sound node gets a genuine image. -/
theorem SoundNode.withImage {node : Node Image} (h : SoundNode rt origin names node)
    {name : Text} {image : Image} (himage : origin name image) :
    SoundNode rt origin names (node.withImage name image) := by
  refine ⟨h.files, fun n i hi => ?_⟩
  change Function.update node.images name (some image) n = some i at hi
  by_cases heq : n = name
  · subst heq
    rw [Function.update_self] at hi
    cases hi
    exact himage
  · rw [Function.update_of_ne heq] at hi
    exact h.images n i hi

/-- A sound node gets a good file, or loses one. -/
theorem SoundNode.withFile (hinj : Set.InjOn imageFilename names) {node : Node Image}
    (h : SoundNode rt origin names node) {name : Text} (hname : name ∈ names)
    {file : Option (Archive Image)}
    (hfile : ∀ archive, file = some archive → archive.Good rt origin name) :
    SoundNode rt origin names (node.withFile (imageFilename name) file) :=
  ⟨h.files.update hinj hname hfile, h.images⟩

/-! ### A run -/

namespace ContainerRun

variable {r : ContainerRun Image} {required : Text → Bool} {cached : Bool}

section Judgments

variable {P P₁ P₂ R Q E : Machines Image → Prop}

/-- The tasks for the item are judged with the facts of a state. -/
theorem downloadContainer_triple (hnone : r.included = [] → ∀ s, P s → Q s)
    (himage : ∀ s, P s → r.included ≠ [] → ∃ P₀ : Machines Image → Prop, P₀ s ∧
      Triple P₀ (r.downloadImage rt (fun host => r.pullRequired rt (s.host host)) (r.isCached s))
        (fun _ => Q) E) :
    Triple P (r.downloadContainer rt) (fun _ => Q) E := by
  refine Triple.bind (Triple.get (Q := fun s t => s = t ∧ P t) fun _ hs => ⟨rfl, hs⟩) fun s =>
    Triple.ite (fun hno => Triple.pure fun _ hs => hnone hno _ hs.2) fun hne t ht => ?_
  obtain ⟨rfl, hs⟩ := ht
  obtain ⟨P₀, hP₀, htriple⟩ := himage s hs hne
  exact htriple s hP₀

/-- The tasks are judged one by one. -/
theorem downloadImage_triple (check : Triple P (r.checkDigest rt required) (fun _ => P₁) E)
    (assertion : Triple P₁ (r.assertCached cached) (fun _ => P₁) E)
    (fetch : Triple P₁ (r.fetch rt required cached) (fun _ => P₂) E)
    (spread : Triple P₂ (r.spread rt required) (fun _ => R) E)
    (remove : Triple R r.removeFile (fun _ => Q) E) :
    Triple P (r.downloadImage rt required cached) (fun _ => Q) E :=
  check.bind fun _ => assertion.bind fun _ => fetch.bind fun _ => spread.bind fun _ => remove

/-- A missing file is made on the delegate. -/
theorem fetch_triple (honce : r.play.downloadRunOnce = true)
    (found : cached = true → ∀ s, P s → Q s)
    (pull : cached = false → Triple P (r.pullImage rt required) (fun _ => P₁) E)
    (save : Triple P₁ (r.saveImage rt) (fun _ => P₂) E)
    (copy : Triple P₂ r.copyToCache (fun _ => Q) E) :
    Triple P (r.fetch rt required cached) (fun _ => Q) E :=
  Triple.ite (fun hcached => Triple.pure (found hcached)) fun hcached =>
    (pull (Bool.eq_false_iff.mpr hcached)).bind fun _ => Triple.ite
      (fun _ => save.bind fun _ => copy) fun hno => absurd honce hno

/-- With the cache the file is brought to the hosts and loaded. -/
theorem spread_triple (hforce : r.play.forceCache = true)
    (upload : Triple P (r.uploadImage required) (fun _ => P₁) E)
    (load : Triple P₁ (r.loadImage rt required) (fun _ => Q) E) :
    Triple P (r.spread rt required) (fun _ => Q) E :=
  Triple.ite (fun _ => upload.bind fun _ => load) fun hno => absurd hforce hno

end Judgments

/-- The item is one of those that the files are for, and genuine images are pulled. -/
structure Served (rt : Runtime Image) (origin : Text → Image → Prop) (names : Set Text)
    (r : ContainerRun Image) : Prop where
  name_mem : r.name ∈ names
  genuine : ∀ host image, r.pull host r.name = some image → origin (rt.reference r.name) image

/-- Whatever image it gets, a node keeps the image of the item. -/
theorem Has.withImage {node : Node Image} (h : Has rt r node) (name : Text) (image : Image) :
    Has rt r (node.withImage name image) := by
  change (Function.update node.images name (some image) (rt.reference r.name)).isSome = true
  by_cases heq : rt.reference r.name = name
  · rw [heq, Function.update_self]
    rfl
  · rw [Function.update_of_ne heq]
    exact h

/-- A node has the image that it gets. -/
theorem has_withImage (node : Node Image) (image : Image) :
    Has rt r (node.withImage (rt.reference r.name) image) := by
  change (Function.update node.images _ (some image) (rt.reference r.name)).isSome = true
  rw [Function.update_self]
  rfl

/-- A node on which the image is not required has it. -/
theorem has_of_not_pullRequired {node : Node Image} (h : r.pullRequired rt node = false) :
    Has rt r node := by
  rw [pullRequired, Bool.or_eq_false_iff, Bool.not_eq_false'] at h
  exact rt.isSome_of_lists _ _ h.2

/-- The node is sound, and, if it is one of those that the tasks so far have supplied, it has the
image. -/
def Supplied (rt : Runtime Image) (origin : Text → Image → Prop) (names : Set Text)
    (r : ContainerRun Image) (supplied : Text → Prop) (host : Text) (node : Node Image) : Prop :=
  SoundNode rt origin names node ∧ (host ∈ r.included → supplied host → Has rt r node)

variable {supplied : Text → Prop} {host : Text} {node : Node Image}

/-- A supplied node gets a genuine image. -/
theorem Supplied.withImage (h : Supplied rt origin names r supplied host node) {name : Text}
    {image : Image} (himage : origin name image) :
    Supplied rt origin names r supplied host (node.withImage name image) :=
  ⟨h.1.withImage himage, fun hmem hs => (h.2 hmem hs).withImage name image⟩

/-- A supplied node gets a good file of the item, or loses it. -/
theorem Supplied.withFile (hinj : Set.InjOn imageFilename names) (hname : r.name ∈ names)
    (h : Supplied rt origin names r supplied host node) {file : Option (Archive Image)}
    (hfile : ∀ archive, file = some archive → archive.Good rt origin r.name) :
    Supplied rt origin names r supplied host (node.withFile r.file file) :=
  ⟨h.1.withFile hinj hname hfile, h.2⟩

/-- The judgment about the tasks of the item: files and images stay sound. -/
abbrev Supplies (rt : Runtime Image) (origin : Text → Image → Prop) (names : Set Text)
    (r : ContainerRun Image) (before : Text → Prop) (x : EStateM Failure (Machines Image) PUnit)
    (after : Text → Prop) : Prop :=
  Triple (Fleet.Holds (GoodFiles rt origin names) (Supplied rt origin names r before)) x
    (fun _ => Fleet.Holds (GoodFiles rt origin names) (Supplied rt origin names r after))
    (Sound rt origin names)

/-- The check of the digest changes nothing. -/
theorem checkDigest_supplies :
    Supplies rt origin names r supplied (r.checkDigest rt required) supplied := by
  refine Triple.onHosts (fun _ host node node' _ _ hnode htask => ?_) (fun _ _ _ h => h)
    (fun _ _ h => h.1) (fun _ _ h => h.1)
  split_ifs at htask
  cases htask
  exact hnode

/-- Nor does the check of the cache. -/
theorem assertCached_keeps {P E : Machines Image → Prop} (h : ∀ s, P s → E s) :
    Triple P (r.assertCached cached) (fun _ => P) E :=
  Triple.ite (fun _ => Triple.throw h) fun _ => Triple.pure fun _ hs => hs

/-- The hosts pull what they require, or the delegate pulls. -/
theorem pullImage_supplies (hr : r.Served rt origin names) :
    Supplies rt origin names r (fun host => required host = false) (r.pullImage rt required)
      (fun host => required host = false ∨ r.play.downloadRunOnce = false) := by
  refine Triple.ite (fun honce => ?_) fun honce => ?_
  · have hdone : ∀ host node, Supplied rt origin names r (fun host => required host = false)
        host node → Supplied rt origin names r
          (fun host => required host = false ∨ r.play.downloadRunOnce = false) host node := by
      intro host node h
      refine ⟨h.1, fun hmem hs => h.2 hmem (hs.resolve_right fun hno => ?_)⟩
      rw [honce] at hno
      cases hno
    refine Triple.onHosts (fun _ host node node' hmem _ hnode htask => ?_)
      (fun host node _ h => hdone host node h) (fun _ _ h => h.1) (fun _ _ h => h.1)
    obtain ⟨image, himage, rfl⟩ := Option.map_eq_some_iff.mp htask
    exact (hdone host node hnode).withImage (hr.genuine _ _ himage)
  · refine Triple.onHosts (fun _ host node node' hmem _ hnode htask => ?_)
      (fun host node hmem h => ⟨h.1, fun hin => absurd hin hmem⟩) (fun _ _ h => h.1)
      (fun _ _ h => h.1)
    split_ifs at htask with hreq
    · obtain ⟨image, himage, rfl⟩ := Option.map_eq_some_iff.mp htask
      exact ⟨hnode.1.withImage (hr.genuine _ _ himage), fun _ _ => has_withImage node image⟩
    · cases htask
      exact ⟨hnode.1, fun hin _ => hnode.2 hin (Bool.eq_false_iff.mpr hreq)⟩

/-- What is saved is the image, or truncated. -/
theorem archiveOf_good {image : Option Image}
    (himage : ∀ i, image = some i → origin (rt.reference r.name) i) :
    (r.archiveOf image).Good rt origin r.name := by
  cases image with
  | none => exact Or.inl rfl
  | some i =>
      rw [archiveOf]
      split_ifs
      · exact Or.inr ⟨i, rfl, himage i rfl⟩
      · exact Or.inl rfl

/-- A good file is written. -/
theorem writeArchive_supplied (hinj : Set.InjOn imageFilename names)
    (hr : r.Served rt origin names) {s : Machines Image}
    (hs : Fleet.Holds (GoodFiles rt origin names) (Supplied rt origin names r supplied) s)
    {archive : Archive Image}
    (hgood : ∀ a, some archive = some a → a.Good rt origin r.name) :
    Fleet.Holds (GoodFiles rt origin names) (Supplied rt origin names r supplied)
      (r.writeArchive archive s) := by
  rw [writeArchive]
  split_ifs
  · exact ⟨hs.1.update hinj hr.name_mem hgood, hs.2⟩
  · refine ⟨hs.1, fun host => ?_⟩
    by_cases heq : host = r.delegate
    · subst heq
      simp only [Function.update_self]
      exact (hs.2 _).withFile hinj hr.name_mem hgood
    · simp only [Function.update_of_ne heq]
      exact hs.2 host

/-- What a save writes is good, whether it fails or not. -/
theorem saveImage_supplies (hinj : Set.InjOn imageFilename names)
    (hr : r.Served rt origin names) :
    Supplies rt origin names r supplied (r.saveImage rt) supplied := by
  intro s hs
  have hgood : ∀ archive, some (r.archiveOf ((s.host r.delegate).images (rt.reference r.name)))
      = some archive → archive.Good rt origin r.name := by
    intro archive harchive
    cases harchive
    exact archiveOf_good fun i hi => (hs.2 r.delegate).1.images _ i hi
  have hwritten := writeArchive_supplied hinj hr hs hgood
  rw [saveImage]
  split_ifs
  · exact ⟨hwritten.1, fun host => (hwritten.2 host).1⟩
  · exact hwritten

/-- The file of the delegate is copied to the cache. -/
theorem copyToCache_supplies (hinj : Set.InjOn imageFilename names)
    (hr : r.Served rt origin names) :
    Supplies rt origin names r supplied r.copyToCache supplied := by
  intro s hs
  have hsound : Sound rt origin names s := ⟨hs.1, fun host => (hs.2 host).1⟩
  rw [copyToCache]
  by_cases hcopy : r.play.downloadLocalhost = false ∧ r.delegate ∈ r.included
  · rw [if_pos hcopy]
    cases hfile : (s.host r.delegate).files r.file with
    | none => exact hsound
    | some archive =>
        by_cases hcopies : r.copies = true
        · simp only [if_pos hcopies]
          refine ⟨hs.1.update hinj hr.name_mem fun a ha => ?_, hs.2⟩
          cases ha
          exact (hs.2 r.delegate).1.files _ hr.name_mem _ hfile
        · simp only [if_neg hcopies]
          exact hsound
  · rw [if_neg hcopy]
    exact hs

/-- What fills the cache, or supplies the hosts. -/
theorem fetch_supplies (hinj : Set.InjOn imageFilename names) (hr : r.Served rt origin names)
    (hcached : cached = true → r.play.forceCache = true) :
    Supplies rt origin names r (fun host => required host = false)
      (r.fetch rt required cached)
      (fun host => required host = false ∨ r.play.forceCache = false) := by
  have hmode : r.play.forceCache = false → r.play.downloadRunOnce = false := by
    intro hforce
    rw [DownloadPlay.forceCache] at hforce
    split_ifs at hforce with honce
    exact Bool.eq_false_iff.mpr honce
  have hdone : ∀ s, Fleet.Holds (GoodFiles rt origin names) (Supplied rt origin names r
      fun host => required host = false ∨ r.play.downloadRunOnce = false) s →
      Fleet.Holds (GoodFiles rt origin names) (Supplied rt origin names r
        fun host => required host = false ∨ r.play.forceCache = false) s := fun s hs =>
    ⟨hs.1, fun host => ⟨(hs.2 host).1, fun hin h => (hs.2 host).2 hin (h.imp_right hmode)⟩⟩
  refine Triple.ite (fun his => Triple.pure fun s hs => ⟨hs.1, fun host => ⟨(hs.2 host).1, ?_⟩⟩)
    fun _ => Triple.bind (pullImage_supplies hr) fun _ => Triple.ite (fun _ => ?_)
      fun _ => Triple.pure hdone
  · rintro hin (h | h)
    · exact (hs.2 host).2 hin h
    · rw [hcached his] at h
      cases h
  · exact (Triple.bind (saveImage_supplies hinj hr) fun _ => copyToCache_supplies hinj hr).conseq
      (fun _ h => h) (fun _ => hdone) fun _ h => h

/-- The hosts that require the image get the file and load it. -/
theorem spread_supplies (hinj : Set.InjOn imageFilename names) (hr : r.Served rt origin names) :
    Supplies rt origin names r (fun host => required host = false ∨ r.play.forceCache = false)
      (r.spread rt required) (fun _ => True) := by
  refine Triple.ite (fun hforce => Triple.bind (Triple.onAll ?_ fun _ _ _ h => h)
    fun _ => Triple.onHosts ?_ ?_ (fun _ _ h => h.1) fun _ _ h => h.1) fun hforce =>
      Triple.pure fun s hs => ⟨hs.1, fun host => ⟨(hs.2 host).1, fun hin _ =>
        (hs.2 host).2 hin (Or.inr (Bool.eq_false_iff.mpr hforce))⟩⟩
  · intro cache host node _ hcache hnode
    cases harchive : cache r.file with
    | none => exact hnode
    | some archive =>
        simp only
        split_ifs
        · refine hnode.withFile hinj hr.name_mem fun a ha => ?_
          cases ha
          exact hcache _ hr.name_mem _ harchive
        · exact hnode
  · intro _ host node node' _ _ hnode htask
    by_cases hreq : required host = true
    · rw [if_pos hreq] at htask
      cases hfile : node.files r.file with
      | none => simp [hfile] at htask
      | some archive =>
          obtain rfl | ⟨image, rfl, himage⟩ := hnode.1.files _ hr.name_mem _ hfile
          · simp [hfile] at htask
          · have hname : r.loadedName r.name = r.name := by
              rw [loadedName, ite_self]
            simp only [hfile, hname] at htask
            split_ifs at htask
            cases htask
            exact ⟨hnode.1.withImage himage, fun _ _ => has_withImage node image⟩
    · rw [if_neg hreq] at htask
      cases htask
      exact ⟨hnode.1, fun hin _ => hnode.2 hin (Or.inl (Bool.eq_false_iff.mpr hreq))⟩
  · intro host node hmem hnode
    exact ⟨hnode.1, fun hin => absurd hin hmem⟩

/-- The files are removed. -/
theorem removeFile_supplies (hinj : Set.InjOn imageFilename names)
    (hr : r.Served rt origin names) :
    Supplies rt origin names r supplied r.removeFile supplied := by
  refine Triple.onAll (fun _ host node _ _ hnode => ?_) fun _ _ _ h => h
  split_ifs
  · exact hnode
  · refine hnode.withFile hinj hr.name_mem fun a ha => ?_
    cases ha

/-- **A run** keeps files and images sound, wherever it fails, and where it completes all its hosts
have the image. -/
theorem downloadContainer_supplies (hinj : Set.InjOn imageFilename names)
    (hr : r.Served rt origin names) :
    Triple (Sound rt origin names) (r.downloadContainer rt)
      (fun _ => Fleet.Holds (GoodFiles rt origin names)
        (Supplied rt origin names r fun _ => True)) (Sound rt origin names) := by
  refine downloadContainer_triple (fun hnone s hs => ⟨hs.1, fun host => ⟨hs.2 host, ?_⟩⟩)
    fun s hs _ => ⟨_, ⟨hs.1, fun host => ⟨hs.2 host, fun _ hreq => ?_⟩⟩,
      downloadImage_triple checkDigest_supplies
        (assertCached_keeps fun _ h => ⟨h.1, fun host => (h.2 host).1⟩)
        (fetch_supplies hinj hr fun hcached => (Bool.and_eq_true_iff.mp hcached).1)
        (spread_supplies hinj hr) (removeFile_supplies hinj hr)⟩
  · intro hin
    rw [hnone] at hin
    cases hin
  · exact has_of_not_pullRequired hreq

end ContainerRun

/-- **All runs** keep files and images sound. -/
theorem sound_afterAll (hinj : Set.InjOn imageFilename names) {runs : List (ContainerRun Image)}
    (hruns : ∀ r ∈ runs, r.Served rt origin names) {s : Machines Image}
    (hs : Sound rt origin names s) : Sound rt origin names (afterAll rt runs s) :=
  holds_along (fun r hr => (r.downloadContainer_supplies hinj (hruns r hr)).conseq (fun _ h => h)
    (fun _ _ h => ⟨h.1, fun host => (h.2 host).1⟩) fun _ h => h) hs

/-- **A run that completes**, after whatever runs, leaves its hosts with a genuine image of the
item. -/
theorem genuine_of_ok (hinj : Set.InjOn imageFilename names) {runs : List (ContainerRun Image)}
    {last : ContainerRun Image} (hruns : ∀ r ∈ last :: runs, r.Served rt origin names)
    {s s' : Machines Image} (hs : Sound rt origin names s)
    (hok : last.downloadContainer rt (afterAll rt runs s) = .ok ⟨⟩ s') :
    ∀ host ∈ last.included, ∃ image,
      (s'.host host).images (rt.reference last.name) = some image ∧
        origin (rt.reference last.name) image := by
  have hsound := sound_afterAll hinj (fun r hr => hruns r (List.mem_cons_of_mem last hr)) hs
  have hend := (last.downloadContainer_supplies hinj (hruns last List.mem_cons_self)).of_ok
    hsound hok
  intro host hin
  obtain ⟨hnode, hhas⟩ := hend.2 host
  obtain ⟨image, himage⟩ := Option.isSome_iff_exists.mp (hhas hin trivial)
  exact ⟨image, himage, hnode.images _ _ himage⟩

end Kubespray.Download
