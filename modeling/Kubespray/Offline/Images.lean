import Kubespray.Library.Fallible
import Kubespray.Library.LineSearch
import Kubespray.Library.OrderedDict
import Kubespray.Library.Words
import Kubespray.Text
import Mathlib.Data.List.DropRight

/-!
# The Offline Bundle of Images

`manage-offline-container-images.sh create` saves every image to a file, whose name is the
reference with `-` for each `/` and `:`, and lists the files with the references, less the
registry where it is a known one. `register` reads the list, loads the files and pushes what
it loaded. It asks `docker load` for the name of the image, and an archive that was saved by
digest has none.

An image is what `docker inspect` calls its `Id`. References are words of `$IMAGES`, pulling
succeeds, the local registry runs, and the script is started in its own directory. A registry
is a host name with a port, of which `sed` takes the dots for patterns; they match themselves.

## Main results

* `pushed_sound`: what a run of `register` pushes.
* `roundTrip_iff`: when the bundle brings over every image.
-/

namespace Kubespray.Offline

open Fallible LineSearch OrderedDict Words

/-! ### References -/

/-- A reference is a word, and ends neither like a registry nor like a name whose tag is
missing. -/
def isReference (image : Text) : Bool :=
  image.all (fun c => !isBlank c && c ≠ '\n') &&
    image.getLast?.any fun c => c ≠ '/' && c ≠ ':'

/-- The name with its tag: `docker` reads a name without a tag as one with `latest`. -/
def withTag (name : Text) : Text :=
  if ':' ∈ name.reverse.takeWhile (· ≠ '/') then name else name ++ ":latest".toList

/-! ### Docker -/

/-- A file of `docker save`. -/
structure Archive (Image : Type) where
  /-- The name that the image is saved under. -/
  name : Option Text
  image : Image

/-- What `docker` does with references, as far as the script relies on it. -/
structure Docker (Image : Type) where
  /-- The image that `docker pull` gets. -/
  pulled : Text → Image
  /-- The name that `docker save` gives to an image saved by reference. -/
  savedName : Text → Option Text
  savedName_eq_none_iff : ∀ image, savedName image = none ↔ '@' ∈ image
  isReference_savedName : ∀ image name, isReference image = true → savedName image = some name →
    isReference name = true

variable {Image : Type}

/-- `docker save`, after `docker pull`. -/
def Docker.save (docker : Docker Image) (image : Text) : Archive Image :=
  { name := docker.savedName image
    image := docker.pulled image }

/-- The host that `register` runs on. -/
structure Daemon (Image : Type) where
  tags : OrderedDict Text Image
  /-- What was pushed to the local registry. -/
  pushed : OrderedDict Text Image

/-- `docker load`, and the third word of its first line, `Loaded image: NAME` or
`Loaded image ID: ID`. -/
def Daemon.load (d : Daemon Image) : Option (Archive Image) → Daemon Image × Text
  | some { name := some name, image } => ({ d with tags := d.tags.set name image }, name)
  | some { name := none, .. } => (d, "ID:".toList)
  | none => (d, [])

/-- `docker image inspect`. -/
def Daemon.inspect (d : Daemon Image) (image : Text) : Option Image :=
  if isReference image then d.tags.get? image else none

/-- `docker tag`. -/
def Daemon.tag (d : Daemon Image) (image : Image) (name : Text) : Daemon Image :=
  { d with tags := d.tags.set (withTag name) image }

/-- `docker push`. -/
def Daemon.push (d : Daemon Image) (name : Text) : Except (Text × Daemon Image) (Daemon Image) :=
  match d.tags.get? (withTag name) with
  | some image => .ok { d with pushed := d.pushed.set (withTag name) image }
  | none => .error ("docker push".toList, d)

/-! ### `create_container_image_tar` -/

/-- The directory of a bundle. -/
structure Bundle (Image : Type) where
  files : OrderedDict Text (Archive Image)
  /-- The text of `container-images.txt`. -/
  list : Text

/-- `FILE_NAME`. -/
def fileName (image : Text) : Text :=
  image.map (fun c => if c = '/' ∨ c = ':' then '-' else c) ++ ".tar".toList

/-- The reference without a registry that Kubespray replaces. -/
def strippedImage (privateRegistry image : Text) : Text :=
  let firstPart := image.takeWhile (· ≠ '/')
  if firstPart ∈ ["registry.k8s.io".toList, "gcr.io".toList, "docker.io".toList,
      "quay.io".toList, privateRegistry] then
    if firstPart ++ ['/'] <+: image then image.drop (firstPart.length + 1) else image
  else image

/-- The line of an image. -/
def listLine (privateRegistry image : Text) : Text :=
  fileName image ++ "  ".toList ++ strippedImage privateRegistry image

/-- The body of the loop over `${IMAGES}`. -/
def createImage (docker : Docker Image) (privateRegistry : Text) (b : Bundle Image)
    (image : Text) : Bundle Image :=
  { files := b.files.set (fileName image) (docker.save image)
    list := b.list ++ (listLine privateRegistry image ++ ['\n']) }

/-- `create_container_image_tar`. -/
def createContainerImageTar (docker : Docker Image) (privateRegistry : Text)
    (images : List Text) : Bundle Image :=
  images.foldl (createImage docker privateRegistry)
    { files := OrderedDict.empty.set "registry-latest.tar".toList
        (docker.save "registry:latest".toList)
      list := [] }

/-! ### `register_container_images` -/

/-- `$(cat ${IMAGE_LIST})` as `read` gets it. -/
def listLines (list : Text) : List Text :=
  lines '\n' (list.rdropWhile (· = '\n') ++ ['\n'])

/-- The body of the loop over the list. -/
def registerLine (localhostName : Text) (files : OrderedDict Text (Archive Image))
    (d : Daemon Image) (line : Text) : Except (Text × Daemon Image) (Daemon Image) :=
  let file := (words isBlank line)[0]?.getD []
  let rawImage := (words isBlank line)[1]?.getD []
  let newImage := localhostName ++ ":5000/".toList ++ rawImage
  let (d, orgImage) := d.load (files.get? file)
  let imageId := d.inspect orgImage
  if file = [] then .error ("Failed to get file_name for line ".toList ++ line, d)
  else if rawImage = [] then .error ("Failed to get raw_image for line ".toList ++ line, d)
  else if orgImage = [] then .error ("Failed to get org_image for line ".toList ++ line, d)
  else
    match imageId with
    | none => .error ("Failed to get image_id for file ".toList ++ file, d)
    | some imageId => (((d.load (files.get? file)).1).tag imageId newImage).push newImage

/-- `register_container_images`. -/
def registerContainerImages (localhostName : Text) (b : Bundle Image) (d : Daemon Image) :
    Except (Text × Daemon Image) (Daemon Image) :=
  (listLines b.list).foldlM (registerLine localhostName b.files)
    (d.load (b.files.get? "registry-latest.tar".toList)).1

/-- What a run has pushed, also when it stopped. -/
def pushedBy : Except (Text × Daemon Image) (Daemon Image) → OrderedDict Text Image
  | .ok d => d.pushed
  | .error (_, d) => d.pushed

/-! ### The list -/

/-- A reference has no characters that end a word. -/
theorem isReference_iff {image : Text} : isReference image = true ↔
    (∀ c ∈ image, isBlank c = false ∧ c ≠ '\n') ∧
      ∃ c, image.getLast? = some c ∧ c ≠ '/' ∧ c ≠ ':' := by
  simp only [isReference, Bool.and_eq_true, List.all_eq_true, Option.any_eq_true,
    Bool.not_eq_true', decide_eq_true_eq]

/-- The file name of a reference is a word. -/
theorem fileName_word {image : Text} (h : isReference image = true) :
    fileName image ≠ [] ∧ ∀ c ∈ fileName image, isBlank c = false ∧ c ≠ '\n' := by
  refine ⟨List.append_ne_nil_of_right_ne_nil _ (by decide), fun c hc => ?_⟩
  rcases List.mem_append.mp hc with hc | hc
  · obtain ⟨d, hd, rfl⟩ := List.mem_map.mp hc
    split_ifs
    · decide
    · exact (isReference_iff.mp h).1 d hd
  · have htar : (".tar".toList.all fun c => !isBlank c && c ≠ '\n') = true := rfl
    simpa using List.all_eq_true.mp htar c hc

/-- What is left of a reference stands at its end. -/
theorem strippedImage_suffix (privateRegistry image : Text) :
    strippedImage privateRegistry image <:+ image := by
  unfold strippedImage
  dsimp only
  split_ifs
  · exact List.drop_suffix ..
  · exact List.suffix_rfl
  · exact List.suffix_rfl

/-- So is what is left of it. -/
theorem strippedImage_word (privateRegistry : Text) {image : Text} (h : isReference image = true) :
    strippedImage privateRegistry image ≠ [] ∧
      ∀ c ∈ strippedImage privateRegistry image, isBlank c = false ∧ c ≠ '\n' := by
  obtain ⟨hword, last, hlast, hslash, -⟩ := isReference_iff.mp h
  refine ⟨?_, fun c hc => hword c ((strippedImage_suffix privateRegistry image).subset hc)⟩
  have himage : image ≠ [] := by
    rintro rfl
    cases hlast
  unfold strippedImage
  dsimp only
  generalize image.takeWhile (· ≠ '/') = firstPart
  split_ifs with hknown hprefix
  · rw [ne_eq, List.drop_eq_nil_iff]
    intro hlength
    have hall : firstPart ++ ['/'] = image :=
      hprefix.eq_of_length_le (by rw [List.length_append, List.length_singleton]; exact hlength)
    rw [← hall, List.getLast?_concat, Option.some.injEq] at hlast
    exact hslash hlast.symm
  · exact himage
  · exact himage

/-- The words of a line of the list. -/
theorem words_listLine {privateRegistry image : Text} (h : isReference image = true) :
    words isBlank (listLine privateRegistry image)
      = [fileName image, strippedImage privateRegistry image] := by
  obtain ⟨hfile, hfileWord⟩ := fileName_word h
  obtain ⟨hraw, hrawWord⟩ := strippedImage_word privateRegistry h
  rw [listLine, List.append_assoc]
  change words isBlank (fileName image ++ ' ' :: ' ' :: strippedImage privateRegistry image) = _
  rw [words_word_append hfile (fun c hc => (hfileWord c hc).1) rfl, words_cons rfl,
    words_of_word hraw fun c hc => (hrawWord c hc).1]

/-- The lines of the list. -/
theorem listLines_flatMap {ls : List Text} (hne : ls ≠ []) (hls : ∀ l ∈ ls, l ≠ [] ∧ '\n' ∉ l) :
    listLines (ls.flatMap fun l => l ++ ['\n']) = ls := by
  obtain ⟨init, last, rfl⟩ := List.eq_nil_or_concat' ls |>.resolve_left hne
  obtain ⟨hlast, hnl⟩ := hls last (List.mem_append_right _ List.mem_cons_self)
  obtain ⟨start, c, rfl⟩ := List.eq_nil_or_concat' last |>.resolve_left hlast
  have hc : ¬ (decide (c = '\n') = true) := by
    rw [decide_eq_true_eq]
    rintro rfl
    exact hnl (List.mem_append_right _ List.mem_cons_self)
  have htext : ((init ++ [start ++ [c]]).flatMap fun l => l ++ ['\n'])
      = (init.flatMap fun l => l ++ ['\n']) ++ start ++ [c] ++ ['\n'] := by
    rw [List.flatMap_append, List.flatMap_singleton]
    simp only [List.append_assoc]
  have hstrip : ((init ++ [start ++ [c]]).flatMap fun l => l ++ ['\n']).rdropWhile (· = '\n')
      ++ ['\n'] = (init ++ [start ++ [c]]).flatMap fun l => l ++ ['\n'] := by
    rw [htext, List.rdropWhile_concat_pos _ _ _ (by simp), List.rdropWhile_concat,
      if_neg hc]
  rw [listLines, hstrip]
  exact lines_flatMap fun l hl => (hls l hl).2

/-! ### What `create` leaves -/

/-- The list has a line for every image. -/
theorem list_create (docker : Docker Image) (privateRegistry : Text) (images : List Text) :
    (createContainerImageTar docker privateRegistry images).list
      = (images.map (listLine privateRegistry)).flatMap fun l => l ++ ['\n'] := by
  induction images using List.reverseRecOn with
  | nil => rfl
  | append_singleton images image ih =>
      rw [createContainerImageTar, List.foldl_append] at *
      rw [List.map_append, List.flatMap_append, ← ih]
      exact congrArg _ (List.append_nil _).symm

/-- The file of an image is that of the image that was saved to it last. -/
theorem files_create (docker : Docker Image) (privateRegistry : Text) {images : List Text}
    {image : Text} (h : image ∈ images) :
    ∃ saved ∈ images, fileName saved = fileName image ∧
      (createContainerImageTar docker privateRegistry images).files.get? (fileName image)
        = some (docker.save saved) := by
  induction images using List.reverseRecOn with
  | nil => cases h
  | append_singleton images last ih =>
      have hfiles : (createContainerImageTar docker privateRegistry (images ++ [last])).files
          = (createContainerImageTar docker privateRegistry images).files.set (fileName last)
            (docker.save last) := by
        rw [createContainerImageTar, List.foldl_append]
        rfl
      rw [hfiles]
      by_cases heq : fileName image = fileName last
      · exact ⟨last, List.mem_append_right _ List.mem_cons_self, heq.symm,
          by rw [heq, get?_set_self]⟩
      · have hmem : image ∈ images := (List.mem_append.mp h).resolve_right fun hlast =>
          heq (congrArg fileName (List.mem_singleton.mp hlast))
        obtain ⟨saved, hsaved, hname, hget⟩ := ih hmem
        exact ⟨saved, List.mem_append_left _ hsaved, hname,
          by rw [get?_set_of_ne _ _ heq, hget]⟩

/-- A file name tells whether the image was saved by digest. -/
theorem at_mem_fileName {image : Text} : '@' ∈ fileName image ↔ '@' ∈ image := by
  rw [fileName, List.mem_append, List.mem_map]
  constructor
  · rintro (⟨c, hc, heq⟩ | htar)
    · split_ifs at heq
      · exact absurd heq (by decide)
      · exact heq ▸ hc
    · exact absurd htar (by decide)
  · exact fun h => Or.inl ⟨'@', h, rfl⟩

/-! ### What `register` pushes -/

/-- The name and tag that an image gets in the local registry. -/
def registryName (localhostName privateRegistry image : Text) : Text :=
  withTag (localhostName ++ ":5000/".toList ++ strippedImage privateRegistry image)

/-- The host and the port do not matter to the tag. -/
theorem registryName_eq (localhostName privateRegistry image : Text) :
    registryName localhostName privateRegistry image
      = localhostName ++ ":5000/".toList ++ withTag (strippedImage privateRegistry image) := by
  have htake : ∀ raw : Text,
      (localhostName ++ ":5000/".toList ++ raw).reverse.takeWhile (· ≠ '/')
        = raw.reverse.takeWhile (· ≠ '/') := by
    intro raw
    rw [List.reverse_append, List.takeWhile_append]
    split_ifs with hall
    · have hself : raw.reverse.takeWhile (· ≠ '/') = raw.reverse :=
        (List.takeWhile_prefix _).eq_of_length hall
      rw [List.reverse_append, hself]
      exact List.append_nil _
    · rfl
  rw [registryName, withTag, withTag, htake]
  split_ifs
  · rfl
  · rw [List.append_assoc]

/-- Loading pushes nothing. -/
@[simp] theorem load_pushed (d : Daemon Image) (archive : Option (Archive Image)) :
    (d.load archive).1.pushed = d.pushed := by
  rcases archive with _ | ⟨_ | _, _⟩ <;> rfl

/-- Pushing an image that was tagged. -/
theorem push_tag (d : Daemon Image) (image : Image) (name : Text) :
    (d.tag image name).push name
      = .ok { tags := d.tags.set (withTag name) image
              pushed := d.pushed.set (withTag name) image } := by
  rw [Daemon.push, Daemon.tag, get?_set_self]

/-- The line of an image with a name pushes it. -/
theorem registerLine_of_name {localhostName privateRegistry image name : Text}
    (himage : isReference image = true) {files : OrderedDict Text (Archive Image)}
    {archive : Archive Image} (hfile : files.get? (fileName image) = some archive)
    (hname : archive.name = some name) (hreference : isReference name = true)
    (d : Daemon Image) :
    ∃ d', registerLine localhostName files d (listLine privateRegistry image) = .ok d' ∧
      d'.pushed = d.pushed.set (registryName localhostName privateRegistry image)
        archive.image := by
  obtain ⟨_, image'⟩ := archive
  obtain rfl : _ = some name := hname
  have hne : name ≠ [] := by
    rintro rfl
    cases hreference
  rw [registerLine, words_listLine himage]
  simp only [List.getElem?_cons_zero, List.getElem?_cons_succ, Option.getD_some, hfile]
  rw [if_neg (fileName_word himage).1, if_neg (strippedImage_word _ himage).1, Daemon.load,
    if_neg hne, Daemon.inspect, if_pos hreference, get?_set_self]
  exact ⟨_, push_tag .., rfl⟩

/-- The line of an image without a name stops the run. -/
theorem registerLine_of_none {localhostName privateRegistry image : Text}
    (himage : isReference image = true) {files : OrderedDict Text (Archive Image)}
    {archive : Archive Image} (hfile : files.get? (fileName image) = some archive)
    (hname : archive.name = none) (d : Daemon Image) :
    ∃ message d', registerLine localhostName files d (listLine privateRegistry image)
      = .error (message, d') ∧ d'.pushed = d.pushed := by
  obtain ⟨_, image'⟩ := archive
  obtain rfl : _ = none := hname
  rw [registerLine, words_listLine himage]
  simp only [List.getElem?_cons_zero, List.getElem?_cons_succ, Option.getD_some, hfile]
  rw [if_neg (fileName_word himage).1, if_neg (strippedImage_word _ himage).1]
  -- `docker load` tells the ID, and the script takes the word before it for a name
  exact ⟨_, d, rfl, rfl⟩

/-- The files of a bundle: each has an image that is saved under its name. -/
def Bundled (docker : Docker Image) (files : OrderedDict Text (Archive Image))
    (images : List Text) : Prop :=
  ∀ image ∈ images, ∃ saved, fileName saved = fileName image ∧ isReference saved = true ∧
    files.get? (fileName image) = some (docker.save saved)

/-- **What a run pushes**: images of the list that were not saved by digest, with what their
files hold. -/
theorem pushed_sound {docker : Docker Image} {files : OrderedDict Text (Archive Image)}
    {localhostName privateRegistry : Text} {images : List Text}
    (himages : ∀ image ∈ images, isReference image = true) (hfiles : Bundled docker files images)
    {d : Daemon Image} {name : Text} {image' : Image}
    (h : (pushedBy ((images.map (listLine privateRegistry)).foldlM
      (registerLine localhostName files) d)).get? name = some image') :
    d.pushed.get? name = some image' ∨
      ∃ image ∈ images, name = registryName localhostName privateRegistry image ∧ '@' ∉ image ∧
        ∃ archive, files.get? (fileName image) = some archive ∧ archive.image = image' := by
  induction images generalizing d with
  | nil => exact Or.inl h
  | cons image images ih =>
      obtain ⟨saved, hname, hreference, hfile⟩ := hfiles image List.mem_cons_self
      have himage := himages image List.mem_cons_self
      rw [List.map_cons, List.foldlM_cons] at h
      cases hsaved : (docker.save saved).name with
      | none =>
          obtain ⟨message, d', hstep, hpushed⟩ := registerLine_of_none himage hfile hsaved d
          rw [hstep] at h
          exact Or.inl (hpushed ▸ h)
      | some tag =>
          obtain ⟨d', hstep, hpushed⟩ := registerLine_of_name himage hfile hsaved
            (docker.isReference_savedName saved tag hreference hsaved) d
          rw [hstep, ok_bind] at h
          rcases ih (fun i hi => himages i (List.mem_cons_of_mem _ hi))
            (fun i hi => hfiles i (List.mem_cons_of_mem _ hi)) h with h | ⟨i, hi, hrest⟩
          · rw [hpushed, get?_set] at h
            split_ifs at h with heq
            · refine Or.inr ⟨image, List.mem_cons_self, heq, ?_, _, hfile, Option.some.inj h⟩
              rw [← at_mem_fileName, ← hname, at_mem_fileName, ← docker.savedName_eq_none_iff]
              exact Option.ne_none_iff_exists'.mpr ⟨tag, hsaved⟩
            · exact Or.inl h
          · exact Or.inr ⟨i, List.mem_cons_of_mem _ hi, hrest⟩

/-- **A run that is not stopped** pushes something for every image. -/
theorem pushed_complete {docker : Docker Image} {files : OrderedDict Text (Archive Image)}
    (localhostName privateRegistry : Text) {images : List Text}
    (himages : ∀ image ∈ images, isReference image = true) (hfiles : Bundled docker files images)
    (hdigest : ∀ image ∈ images, '@' ∉ image) (d : Daemon Image) :
    ∃ d', (images.map (listLine privateRegistry)).foldlM (registerLine localhostName files) d
        = .ok d' ∧
      ∀ image ∈ images,
        d'.pushed.get? (registryName localhostName privateRegistry image) ≠ none := by
  induction images using List.reverseRecOn with
  | nil => exact ⟨d, rfl, fun image hmem => by cases hmem⟩
  | append_singleton images image ih =>
      have hlast : image ∈ images ++ [image] := List.mem_append_right _ List.mem_cons_self
      obtain ⟨d₁, hrun, h₁⟩ := ih (fun i hi => himages i (List.mem_append_left _ hi))
        (fun i hi => hfiles i (List.mem_append_left _ hi))
        (fun i hi => hdigest i (List.mem_append_left _ hi))
      obtain ⟨saved, hname, hreference, hfile⟩ := hfiles image hlast
      have hsaved : docker.savedName saved ≠ none := by
        rw [ne_eq, docker.savedName_eq_none_iff, ← at_mem_fileName, hname, at_mem_fileName]
        exact hdigest image hlast
      obtain ⟨tag, htag⟩ := Option.ne_none_iff_exists'.mp hsaved
      obtain ⟨d', hstep, hpushed⟩ := registerLine_of_name (himages image hlast) hfile htag
        (docker.isReference_savedName saved tag hreference htag) d₁
      refine ⟨d', ?_, fun i hi => ?_⟩
      · rw [List.map_append]
        exact foldlM_append_eq_ok_iff.mpr
          ⟨d₁, hrun, foldlM_cons_eq_ok_iff.mpr ⟨d', hstep, rfl⟩⟩
      · rw [hpushed, get?_set]
        split_ifs with heq
        · exact Option.some_ne_none _
        · refine h₁ i ((List.mem_append.mp hi).resolve_right fun hmem => heq ?_)
          rw [List.mem_singleton.mp hmem]

/-! ### The round trip -/

/-- What `create` on one host and `register` on another one push. -/
def pushedImages (docker : Docker Image) (privateRegistry localhostName : Text)
    (tags : OrderedDict Text Image) (images : List Text) : OrderedDict Text Image :=
  pushedBy (registerContainerImages localhostName
    (createContainerImageTar docker privateRegistry images)
    { tags := tags
      pushed := OrderedDict.empty })

/-- The local registry gets exactly the images, under their names. -/
def RoundTrip (docker : Docker Image) (privateRegistry localhostName : Text)
    (tags : OrderedDict Text Image) (images : List Text) : Prop :=
  ∀ name image',
    (pushedImages docker privateRegistry localhostName tags images).get? name = some image' ↔
      ∃ image ∈ images, name = registryName localhostName privateRegistry image ∧
        image' = docker.pulled image

/-- No two images have the same name without their registries. -/
def DistinctNames (privateRegistry : Text) (images : List Text) : Prop :=
  ∀ a ∈ images, ∀ b ∈ images,
    withTag (strippedImage privateRegistry a) = withTag (strippedImage privateRegistry b) → a = b

/-- Without images the list is blank, and nothing is pushed. -/
theorem pushedImages_nil (docker : Docker Image) (privateRegistry localhostName : Text)
    (tags : OrderedDict Text Image) :
    pushedImages docker privateRegistry localhostName tags [] = OrderedDict.empty := by
  rw [pushedImages, registerContainerImages]
  -- the list has one line, without words
  exact load_pushed _ _

/-- Otherwise the run goes through the lines of the images. -/
theorem pushedImages_eq (docker : Docker Image) (privateRegistry localhostName : Text)
    (tags : OrderedDict Text Image) {images : List Text} (hne : images ≠ [])
    (himages : ∀ image ∈ images, isReference image = true) :
    ∃ d : Daemon Image, d.pushed = OrderedDict.empty ∧
      pushedImages docker privateRegistry localhostName tags images
        = pushedBy ((images.map (listLine privateRegistry)).foldlM (registerLine localhostName
            (createContainerImageTar docker privateRegistry images).files) d) := by
  have hlines : ∀ l ∈ images.map (listLine privateRegistry), l ≠ [] ∧ '\n' ∉ l := by
    intro l hl
    obtain ⟨image, hmem, rfl⟩ := List.mem_map.mp hl
    obtain ⟨hfile, hfileWord⟩ := fileName_word (himages image hmem)
    obtain ⟨-, hrawWord⟩ :=
      strippedImage_word privateRegistry (himages image hmem)
    refine ⟨?_, fun hnl => ?_⟩
    · rw [listLine, List.append_assoc]
      exact List.append_ne_nil_of_left_ne_nil hfile _
    · rw [listLine, List.mem_append, List.mem_append] at hnl
      rcases hnl with (hnl | hnl) | hnl
      · exact (hfileWord _ hnl).2 rfl
      · exact absurd hnl (by decide)
      · exact (hrawWord _ hnl).2 rfl
  refine ⟨_, load_pushed { tags := tags, pushed := OrderedDict.empty }
    ((createContainerImageTar docker privateRegistry images).files.get?
      "registry-latest.tar".toList), ?_⟩
  rw [pushedImages, registerContainerImages, list_create,
    listLines_flatMap (List.map_eq_nil_iff.not.mpr hne) hlines]

/-- What is pushed for an image was saved under a name, and is what its file holds. -/
theorem pushed_of_image {docker : Docker Image} {files : OrderedDict Text (Archive Image)}
    {localhostName privateRegistry : Text} {images : List Text}
    (himages : ∀ image ∈ images, isReference image = true) (hfiles : Bundled docker files images)
    (hdistinct : DistinctNames privateRegistry images) {d : Daemon Image}
    (hd : d.pushed = OrderedDict.empty) {image : Text} (hmem : image ∈ images) {image' : Image}
    (h : (pushedBy ((images.map (listLine privateRegistry)).foldlM
      (registerLine localhostName files) d)).get?
        (registryName localhostName privateRegistry image) = some image') :
    '@' ∉ image ∧ ∃ archive, files.get? (fileName image) = some archive ∧
      archive.image = image' := by
  rcases pushed_sound himages hfiles h with h | ⟨i, hi, heq, hrest⟩
  · rw [hd] at h
    cases h
  · rw [registryName_eq, registryName_eq] at heq
    rw [hdistinct image hmem i hi (List.append_cancel_left heq)]
    exact hrest

/-- **When the bundle brings over every image**: none is referred to by its digest, and images
with the same file are the same. -/
theorem roundTrip_iff (docker : Docker Image) (privateRegistry localhostName : Text)
    (tags : OrderedDict Text Image) {images : List Text}
    (himages : ∀ image ∈ images, isReference image = true)
    (hdistinct : DistinctNames privateRegistry images) :
    RoundTrip docker privateRegistry localhostName tags images ↔
      (∀ image ∈ images, '@' ∉ image) ∧
        ∀ a ∈ images, ∀ b ∈ images,
          fileName a = fileName b → docker.pulled a = docker.pulled b := by
  by_cases hne : images = []
  · subst hne
    refine iff_of_true (fun name image' => ?_)
      ⟨fun image hmem => (by cases hmem), fun a hmem => (by cases hmem)⟩
    rw [pushedImages_nil, get?_empty]
    exact ⟨fun h => (by cases h), fun ⟨image, hmem, _⟩ => (by cases hmem)⟩
  set files := (createContainerImageTar docker privateRegistry images).files with hfilesDef
  have hfiles : Bundled docker files images := fun image hmem => by
    obtain ⟨saved, hsaved, hname, hget⟩ := files_create docker privateRegistry hmem
    exact ⟨saved, hname, himages saved hsaved, hget⟩
  obtain ⟨d, hd, hrun⟩ :=
    pushedImages_eq docker privateRegistry localhostName tags hne himages
  constructor
  · intro h
    have hpushed : ∀ image ∈ images, '@' ∉ image ∧ ∃ archive,
        files.get? (fileName image) = some archive ∧ archive.image = docker.pulled image :=
      fun image hmem => pushed_of_image himages hfiles hdistinct hd hmem
        (hrun ▸ (h _ _).mpr ⟨image, hmem, rfl, rfl⟩)
    refine ⟨fun image hmem => (hpushed image hmem).1, fun a ha b hb heq => ?_⟩
    obtain ⟨-, archive, hget, himage⟩ := hpushed a ha
    obtain ⟨-, archive', hget', himage'⟩ := hpushed b hb
    rw [heq, hget', Option.some.injEq] at hget
    rw [← himage, ← himage', hget]
  · rintro ⟨hdigest, hsame⟩ name image'
    obtain ⟨d', hok, hall⟩ :=
      pushed_complete localhostName privateRegistry himages hfiles hdigest d
    have hpulled : ∀ image ∈ images, ∀ archive, files.get? (fileName image) = some archive →
        archive.image = docker.pulled image := by
      intro image hmem archive hget
      obtain ⟨saved, hsaved, heq, hget'⟩ := files_create docker privateRegistry hmem
      rw [← hfilesDef, hget, Option.some.injEq] at hget'
      rw [hget']
      exact hsame saved hsaved image hmem heq
    constructor
    · intro h
      rw [hrun] at h
      rcases pushed_sound himages hfiles h with h | ⟨i, hi, heq, -, archive, hget, rfl⟩
      · rw [hd] at h
        cases h
      · exact ⟨i, hi, heq, hpulled i hi archive hget⟩
    · rintro ⟨image, hmem, rfl, rfl⟩
      obtain ⟨image', hget⟩ := Option.ne_none_iff_exists'.mp (hall image hmem)
      have hpushed : (pushedBy ((images.map (listLine privateRegistry)).foldlM
          (registerLine localhostName files) d)).get?
            (registryName localhostName privateRegistry image) = some image' := by
        rw [hok]
        exact hget
      obtain ⟨-, archive, harchive, rfl⟩ :=
        pushed_of_image himages hfiles hdistinct hd hmem hpushed
      rw [hrun, hpushed, hpulled image hmem archive harchive]

/-- A `docker` whose images are told apart by their references. -/
def plainDocker : Docker Text where
  pulled := id
  savedName image := if '@' ∈ image then none else some image
  savedName_eq_none_iff image := by
    simp only [ite_eq_left_iff, reduceCtorEq, imp_false, not_not]
  isReference_savedName image name h hname := by
    split_ifs at hname
    rw [← Option.some.inj hname, h]

/-- Two images of different registries. -/
theorem roundTrip_pair : RoundTrip plainDocker [] "offline".toList OrderedDict.empty
    ["quay.io/coreos/etcd:v3.5.6".toList, "registry.k8s.io/pause:3.8".toList] :=
  (roundTrip_iff plainDocker [] "offline".toList OrderedDict.empty (by decide)
    (by unfold DistinctNames; decide)).mpr ⟨by decide, by decide⟩

/-- The second image takes the file of the first one. -/
theorem roundTrip_fails :
    ¬ ∀ (docker : Docker Text) (privateRegistry localhostName : Text)
      (tags : OrderedDict Text Text) (images : List Text),
      (∀ image ∈ images, isReference image = true) → DistinctNames privateRegistry images →
        RoundTrip docker privateRegistry localhostName tags images := by
  intro h
  have hfirst := (h plainDocker [] "offline".toList OrderedDict.empty
    ["quay.io/calico/node:v3.25.2".toList, "quay.io/calico-node:v3.25.2".toList] (by decide)
    (by unfold DistinctNames; decide) "offline:5000/calico/node:v3.25.2".toList
    "quay.io/calico/node:v3.25.2".toList).mpr
    ⟨"quay.io/calico/node:v3.25.2".toList, List.mem_cons_self, by decide, rfl⟩
  revert hfirst
  decide

end Kubespray.Offline
