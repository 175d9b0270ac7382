import Kubespray.Download.ContainerRuns

/-!
# Images That Share a File

The file of an image is found by its name alone, and the name of the file is that of the image
with `_` for `/` and `:`. Where two images share a file, the second may not be pulled: the file of
the first is in the cache, is loaded, and brings the image that it was saved as, and the run
completes. Otherwise every run that completes brings its hosts the images of its items, whatever
the settings of the runs and wherever they failed.

## Main results

* `downloadContainer_misses`: the image of a shared file is loaded in place of the other.
* `genuine_iff`: when every completed run leaves its hosts with the images of its items.
-/

namespace Kubespray.Download

open Tasks

variable {Image : Type} {rt : Runtime Image}

/-- What can be loaded from the file was saved under the name. -/
def Named (name file : Text) (files : Text → Option (Archive Image)) : Prop :=
  ∀ n image, files file = some (.saved n image) → n = name

/-- A file of the name. -/
theorem Named.update {name file : Text} {files : Text → Option (Archive Image)}
    {archive : Option (Archive Image)} (h : ∀ n image, archive = some (.saved n image) → n = name) :
    Named name file (Function.update files file archive) := by
  intro n image hsaved
  rw [Function.update_self] at hsaved
  exact h n image hsaved

namespace ContainerRun

variable {r : ContainerRun Image} {required : Text → Bool} {cached : Bool} {a ref : Text}

/-- The node has only files of the one name, and no image of the other. -/
def Misses (r : ContainerRun Image) (a ref : Text) (node : Node Image) : Prop :=
  node.images ref = none ∧ Named a r.file node.files

/-- An image of the one name. -/
theorem Misses.withImage {node : Node Image} (h : Misses r a ref node) (href : rt.reference a ≠ ref)
    (image : Image) : Misses r a ref (node.withImage (rt.reference a) image) :=
  ⟨(Function.update_of_ne href.symm ..).trans h.1, h.2⟩

/-- A file is saved under the name of the item. -/
theorem saveImage_misses :
    Triple (Fleet.Holds (Named r.name r.file) fun _ => Misses r r.name ref) (r.saveImage rt)
      (fun _ => Fleet.Holds (Named r.name r.file) fun _ => Misses r r.name ref)
      (Fleet.Holds (Named r.name r.file) fun _ => Misses r r.name ref) := by
  intro s hs
  have hsaved : ∀ n i, some (r.archiveOf ((s.host r.delegate).images (rt.reference r.name)))
      = some (.saved n i) → n = r.name := by
    intro n i hsaved
    have harchive := Option.some.inj hsaved
    cases himage : (s.host r.delegate).images (rt.reference r.name) with
    | none => simp [himage, archiveOf] at harchive
    | some image =>
        rw [himage, archiveOf] at harchive
        split_ifs at harchive
        cases harchive
        rfl
  have hwritten : Fleet.Holds (Named r.name r.file) (fun _ => Misses r r.name ref)
      (r.writeArchive (r.archiveOf ((s.host r.delegate).images (rt.reference r.name))) s) := by
    rw [writeArchive]
    split_ifs
    · exact ⟨Named.update hsaved, hs.2⟩
    · refine ⟨hs.1, fun host => ?_⟩
      by_cases heq : host = r.delegate
      · subst heq
        simp only [Function.update_self]
        exact ⟨(hs.2 r.delegate).1, Named.update hsaved⟩
      · simp only [Function.update_of_ne heq]
        exact hs.2 host
  rw [saveImage]
  split_ifs
  · exact hwritten
  · exact hwritten

/-- The file of the delegate has the name. -/
theorem copyToCache_misses :
    Triple (Fleet.Holds (Named a r.file) fun _ => Misses r a ref) r.copyToCache
      (fun _ => Fleet.Holds (Named a r.file) fun _ => Misses r a ref)
      (Fleet.Holds (Named a r.file) fun _ => Misses r a ref) := by
  intro s hs
  rw [copyToCache]
  by_cases hcopy : r.play.downloadLocalhost = false ∧ r.delegate ∈ r.included
  · rw [if_pos hcopy]
    cases hfile : (s.host r.delegate).files r.file with
    | none => exact hs
    | some archive =>
        by_cases hcopies : r.copies = true
        · simp only [if_pos hcopies]
          refine ⟨Named.update fun n i hsaved => (hs.2 r.delegate).2 n i ?_, hs.2⟩
          rw [hfile, hsaved]
        · simp only [if_neg hcopies]
          exact hs
  · rw [if_neg hcopy]
    exact hs

/-- The image is loaded under the name that it was saved under. -/
theorem spread_misses (href : rt.reference a ≠ ref) (hmanager : r.play.containerManager ≠ .crio) :
    Triple (Fleet.Holds (Named a r.file) fun _ => Misses r a ref) (r.spread rt required)
      (fun _ => Fleet.Holds (Named a r.file) fun _ => Misses r a ref)
      (Fleet.Holds (Named a r.file) fun _ => Misses r a ref) := by
  refine Triple.ite (fun _ => Triple.bind (Triple.onAll (fun cache host node _ hcache hnode => ?_)
    fun _ _ _ h => h) fun _ => Triple.onHosts (fun _ host node node' _ _ hnode htask => ?_)
    (fun _ _ _ h => h) (fun _ _ h => h) fun _ _ h => h) fun _ => Triple.pure fun _ h => h
  · cases harchive : cache r.file with
    | none => exact hnode
    | some archive =>
        simp only
        split_ifs
        · exact ⟨hnode.1, Named.update fun n i hsaved => hcache n i (by rw [harchive, hsaved])⟩
        · exact hnode
  · by_cases hreq : required host = true
    · rw [if_pos hreq] at htask
      cases hfile : node.files r.file with
      | none => simp [hfile] at htask
      | some archive =>
          cases archive with
          | truncated => simp [hfile] at htask
          | saved n image =>
              obtain rfl := hnode.2 n image hfile
              simp only [hfile, loadedName, if_neg hmanager] at htask
              split_ifs at htask
              cases htask
              exact hnode.withImage href image
    · rw [if_neg hreq] at htask
      cases htask
      exact hnode

/-- **The image of a shared file** is loaded in place of the other. -/
theorem downloadContainer_misses (rt : Runtime Image) (href : rt.reference a ≠ ref)
    (hmanager : r.play.containerManager ≠ .crio) (honce : r.play.downloadRunOnce = true) :
    Triple (Fleet.Holds (fun cache => Named a r.file cache ∧
        (r.name = a ∨ (cache r.file).isSome = true)) fun _ => Misses r a ref)
      (r.downloadContainer rt)
      (fun _ => Fleet.Holds (Named a r.file) fun _ => Misses r a ref)
      (Fleet.Holds (Named a r.file) fun _ => Misses r a ref) := by
  have hforce : r.play.forceCache = true := if_pos honce
  refine downloadContainer_triple (fun _ _ hs => ⟨hs.1.1, hs.2⟩) fun s hs _ =>
    ⟨Fleet.Holds (Named a r.file) fun _ => Misses r a ref, ⟨hs.1.1, hs.2⟩,
      downloadImage_triple (Triple.onHosts ?check (fun _ _ _ h => h) (fun _ _ h => h)
        fun _ _ h => h) (assertCached_keeps fun _ h => h) ?fetch (spread_misses href hmanager)
        (Triple.onAll ?remove fun _ _ _ h => h)⟩
  case check =>
    intro _ _ node node' _ _ hnode htask
    split_ifs at htask
    cases htask
    exact hnode
  case fetch =>
    by_cases hcached : (s.shared r.file).isSome = true
    · have his : r.isCached s = true := by rw [isCached, hforce, hcached, Bool.and_self]
      exact Triple.ite (fun _ => Triple.pure fun _ h => h) fun hno => absurd his hno
    · obtain rfl := hs.1.2.resolve_right hcached
      refine fetch_triple honce (fun _ _ h => h) (fun _ => ?_) saveImage_misses copyToCache_misses
      rw [pullImage, if_pos honce]
      refine Triple.onHosts (fun _ _ _ _ _ _ hnode htask => ?_) (fun _ _ _ h => h)
        (fun _ _ h => h) fun _ _ h => h
      obtain ⟨image, -, rfl⟩ := Option.map_eq_some_iff.mp htask
      exact hnode.withImage href image
  case remove =>
    intro _ _ node _ _ hnode
    split_ifs
    · exact hnode
    · exact ⟨hnode.1, Named.update fun _ _ hno => by cases hno⟩

end ContainerRun

/-- The familiar name is what follows a prefix. -/
theorem exists_append_familiar (name : Text) :
    ∃ lead ∈ ["docker.io/library/".toList, "docker.io/".toList, []],
      name = lead ++ familiar name := by
  rw [familiar]
  split_ifs with hlibrary hdocker
  · obtain ⟨rest, rfl⟩ := List.isPrefixOf_iff_prefix.mp hlibrary
    exact ⟨_, List.mem_cons_self, rfl⟩
  · obtain ⟨rest, rfl⟩ := List.isPrefixOf_iff_prefix.mp hdocker
    exact ⟨_, List.mem_cons_of_mem _ List.mem_cons_self, rfl⟩
  · exact ⟨[], by simp, rfl⟩

/-- Two names of one length have two familiar names. -/
theorem familiar_inj {a b : Text} (hlength : a.length = b.length)
    (h : familiar a = familiar b) : a = b := by
  obtain ⟨lead, hlead, ha⟩ := exists_append_familiar a
  obtain ⟨lead', hlead', hb⟩ := exists_append_familiar b
  have hsame : lead.length = lead'.length := by
    have hla := congrArg List.length ha
    have hlb := congrArg List.length hb
    rw [List.length_append, h] at hla
    rw [List.length_append] at hlb
    omega
  have heq : lead = lead' := by
    simp only [List.mem_cons, List.not_mem_nil, or_false] at hlead hlead'
    obtain rfl | rfl | rfl := hlead <;> obtain rfl | rfl | rfl := hlead' <;>
      first | rfl | (simp at hsame)
  rw [ha, hb, h, heq]

/-- Names that share a file have one length. -/
theorem length_eq_of_imageFilename {a b : Text} (h : imageFilename a = imageFilename b) :
    a.length = b.length := by
  have hlength := congrArg List.length h
  simpa [imageFilename] using hlength

/-- The items whose images are named. -/
def imageNames (items : Set ContainerItem) : Set Text :=
  ContainerItem.imageReponame '' items

/-- A play on one host, the delegate. -/
def alone : ContainerPlay where
  hosts := ["node".toList]
  groupNames _ := []
  firstControlPlane := "node".toList
  skipDownloads := false
  downloadRunOnce := true
  downloadForceCache := false
  downloadLocalhost := false
  downloadContainer := true
  downloadAlwaysPull := false
  downloadKeepRemoteCache := false
  containerManager := .docker
  containerManagerOnLocalhost := .docker

/-- The host includes all items that are enabled. -/
theorem including_alone {item : ContainerItem} (h : item.enabled = true) :
    alone.including item = ["node".toList] := by
  have hincludes : alone.includes item.toItem "node".toList = true := by
    rw [DownloadPlay.includes, h]
    rfl
  exact List.filter_cons_of_pos hincludes

/-- Of two images that share a file the second is not pulled by a run that follows one for the
first, on the delegate alone with `download_run_once` and where nothing fails: the run finds the
file of the first in the cache, loads it and completes, and the image is not there. -/
theorem exists_missing {x y : ContainerItem} (hx : x.enabled = true) (hy : y.enabled = true)
    (hfile : imageFilename x.imageReponame = imageFilename y.imageReponame)
    (href : familiar x.imageReponame ≠ familiar y.imageReponame) :
    ∃ s', (attempt alone y (familiar y.imageReponame) true).downloadContainer (docker Text)
        (afterAll (docker Text) [attempt alone x (familiar x.imageReponame) true]
          (fresh fun _ _ => none)) = .ok ⟨⟩ s' ∧
      (s'.host "node".toList).images (familiar y.imageReponame) = none := by
  have hin : ∀ {item : ContainerItem} (image : Text), item.enabled = true →
      (attempt alone item image true).included = ["node".toList] :=
    fun _ henabled => including_alone henabled
  have hdelegate : ∀ {item : ContainerItem} (image : Text), item.enabled = true →
      (attempt alone item image true).delegate ∈ (attempt alone item image true).included :=
    fun image henabled => hin image henabled ▸ List.mem_cons_self
  have hprotects : alone.Protects := ⟨rfl, fun h => by cases h⟩
  have hrequired : ∀ {item : ContainerItem} {image : Text} {node : Node Text},
      node.images (familiar item.imageReponame) = none →
        (attempt alone item image true).pullRequired (docker Text) node = true := by
    intro item image node hnone
    change (false || !(node.images (familiar item.imageReponame)).isSome) = true
    rw [hnone]
    rfl
  -- The first run leaves the file of its image, which the host of the second does not miss.
  obtain ⟨⟨⟩, s, hok, hloadable⟩ := ((attempt alone x (familiar x.imageReponame) true
    ).downloadContainer_ends (docker Text) (nothingFails_attempt ..) rfl rfl
      fun _ => hdelegate _ hx).exists_ok (s := fresh fun _ _ => none)
      ⟨fun _ hno => (by cases hno), fun _ => Or.inr (hrequired rfl)⟩
  have hwhole := (ContainerRun.downloadContainer_whole (docker Text)
    (r := attempt alone x (familiar x.imageReponame) true) hprotects).of_ok
      ⟨fun _ hno => (by cases hno), fun _ => trivial⟩ hok
  have hmisses := (ContainerRun.downloadContainer_misses (docker Text)
    (r := attempt alone x (familiar x.imageReponame) true) (a := x.imageReponame) href
      hprotects.2 rfl).of_ok
      ⟨⟨fun _ _ hno => (by cases hno), Or.inl rfl⟩, fun _ => ⟨rfl, fun _ _ hno => by cases hno⟩⟩ hok
  have hafter : afterAll (docker Text) [attempt alone x (familiar x.imageReponame) true]
      (fresh fun _ _ => none) = s := by
    change left (ContainerRun.downloadContainer _ _ _) = s
    rw [hok]
    rfl
  rw [hafter]
  obtain ⟨name, image, hsaved⟩ := hloadable (List.ne_nil_of_mem (hdelegate _ hx))
  have hsame : (attempt alone x (familiar x.imageReponame) true).file
      = (attempt alone y (familiar y.imageReponame) true).file := hfile
  obtain ⟨⟨⟩, s', hok', -⟩ := ((attempt alone y (familiar y.imageReponame) true
    ).downloadContainer_ends (docker Text) (nothingFails_attempt ..) rfl rfl
      fun _ => hdelegate _ hy).exists_ok
      ⟨hwhole.1, fun host => Or.inr (hrequired (hmisses.2 host).1)⟩
  refine ⟨s', hok', ?_⟩
  rw [hsame] at hsaved
  have hend := (ContainerRun.downloadContainer_misses (docker Text)
    (r := attempt alone y (familiar y.imageReponame) true) (a := x.imageReponame) href
      hprotects.2 rfl).of_ok (s := s)
      ⟨⟨hsame ▸ hmisses.1, Or.inr (Option.isSome_iff_exists.mpr ⟨_, hsaved⟩)⟩, fun host =>
        ⟨(hmisses.2 host).1, hsame ▸ (hmisses.2 host).2⟩⟩ hok'
  exact (hend.2 "node".toList).1

/-- Every run for one of the items that completes, after whatever runs for them, leaves each of its
hosts with an image that was pulled for the item. -/
def AlwaysGenuine (items : Set ContainerItem) : Prop :=
  ∀ (Image : Type) (rt : Runtime Image) (origin : Text → Image → Prop) (s s' : Machines Image)
    (runs : List (ContainerRun Image)) (last : ContainerRun Image),
    Sound rt origin (imageNames items) s →
    (∀ r ∈ last :: runs, r.item ∈ items ∧ r.Served rt origin (imageNames items)) →
    last.downloadContainer rt (afterAll rt runs s) = .ok ⟨⟩ s' →
    ∀ host ∈ last.included, ∃ image,
      (s'.host host).images (rt.reference last.name) = some image ∧
        origin (rt.reference last.name) image

/-- **Images of their own.** Whatever runs with whatever settings fail or complete, the hosts end
with the images of their items exactly when no two of these share a file. All items are enabled,
as no host includes the others. One pair of names that share a file is enough for a run that
completes without its image (`exists_missing`); that a file has the image of its name is what the
runs hand on to each other otherwise (`genuine_of_ok`). An archive is taken to have the name that
was saved, which is so for tags: one that was saved by digest has none. -/
theorem genuine_iff (items : Set ContainerItem) (henabled : ∀ item ∈ items, item.enabled = true) :
    AlwaysGenuine items ↔ Set.InjOn imageFilename (imageNames items) := by
  constructor
  · rintro hall _ ⟨x, hx, rfl⟩ _ ⟨y, hy, rfl⟩ hfile
    by_contra hne
    have href : familiar x.imageReponame ≠ familiar y.imageReponame := fun heq =>
      hne (familiar_inj (length_eq_of_imageFilename hfile) heq)
    obtain ⟨s', hok, hmissing⟩ := exists_missing (henabled x hx) (henabled y hy) hfile href
    have hserved : ∀ r ∈ [attempt alone y (familiar y.imageReponame) true,
        attempt alone x (familiar x.imageReponame) true], r.item ∈ items ∧
          r.Served (docker Text) (fun ref image => image = ref) (imageNames items) := by
      intro r hr
      simp only [List.mem_cons, List.not_mem_nil, or_false] at hr
      obtain rfl | rfl := hr
      · exact ⟨hy, ⟨y, hy, rfl⟩, fun _ _ himage => (Option.some.inj himage).symm⟩
      · exact ⟨hx, ⟨x, hx, rfl⟩, fun _ _ himage => (Option.some.inj himage).symm⟩
    obtain ⟨image, himage, -⟩ := hall Text (docker Text) (fun ref image => image = ref)
      (fresh fun _ _ => none) s' [attempt alone x (familiar x.imageReponame) true]
      (attempt alone y (familiar y.imageReponame) true)
      ⟨fun _ _ _ hno => (by cases hno), fun _ => ⟨fun _ _ _ hno => (by cases hno),
        fun _ _ hno => by cases hno⟩⟩ hserved hok "node".toList
      ((including_alone (henabled y hy)).symm ▸ List.mem_cons_self :
        "node".toList ∈ alone.including y)
    cases hmissing.symm.trans himage
  · intro hinj Image rt origin s s' runs last hs hruns hok
    exact genuine_of_ok hinj (fun r hr => (hruns r hr).2) hs hok

/-- Two images of one tag, and two that differ in a separator only. -/
theorem genuine_calico :
    AlwaysGenuine {image "quay.io/calico/node" "v3.21.2", image "quay.io/calico/cni" "v3.21.2"} ∧
      ¬ AlwaysGenuine
        {image "quay.io/calico/node" "v3.21.2", image "quay.io/calico_node" "v3.21.2"} := by
  refine ⟨(genuine_iff _ ?_).mpr ?_, fun h => ?_⟩
  · rintro item (rfl | rfl) <;> rfl
  · rintro _ ⟨x, rfl | rfl, rfl⟩ _ ⟨y, rfl | rfl, rfl⟩ hfile
    · rfl
    · exact absurd hfile (by decide)
    · exact absurd hfile (by decide)
    · rfl
  · have hinj := (genuine_iff _ (by rintro item (rfl | rfl) <;> rfl)).mp h
    have hsame := hinj ⟨_, Or.inl rfl, rfl⟩ ⟨_, Or.inr rfl, rfl⟩ (by decide)
    exact absurd hsame (by decide)

end Kubespray.Download
