import Kubespray.EtcdCerts.Script

/-!
# What the Certificate Script Generates

`make-ssl-etcd.sh` with its files under their names. For a host `H` of `$MASTERS` it makes
`member-H.pem` with `member-H-key.pem`, and the same for `admin`; for one of `$HOSTS` it
makes the pair of `node-H`. So a host that is called like another one with `-key` at the
end takes a file of that other host. `openssl req` does not take a common name of more than 64
characters, and the script ends there. At the end `mv *.pem` moves what was made, and fails
when nothing was.

Certificate requests and serial numbers, which the script makes in its working directory
and does not move, are left out. `openssl` is taken to succeed with a valid authority, and a
common name that is not too long.

## Main results

* `foldlM_issuePem`: what the two loops make.
* `generates_iff`: when the script generates exactly what it is asked for.
* `makeSslEtcdPems_of_makeSslEtcd`: the names are those of the files of `makeSslEtcd`.
-/

namespace Kubespray.EtcdCerts

open OrderedDict Fallible

/-! ### The script, with file names -/

/-- The `.pem` files of a directory, by name. -/
abbrev PemDirectory := OrderedDict Text Pem

/-- `ca.pem`. -/
def caName : Text :=
  "ca.pem".toList

/-- `ca-key.pem`. -/
def caKeyName : Text :=
  "ca-key.pem".toList

/-- The file of a certificate. -/
def certName (stem : Text) : Text :=
  stem ++ ".pem".toList

/-- The file of its key. -/
def keyName (stem : Text) : Text :=
  stem ++ "-key.pem".toList

/-- The working directory of the script, and the next unused key. -/
structure PemWork where
  files : PemDirectory
  nextKey : ℕ

/-- `genrsa`, `req` and `x509` for one pair. -/
def issuePem (w : PemWork) (stem : Text) : Except Text PemWork :=
  if 64 < (commonName stem).length then .error "openssl req".toList
  else
    match w.files.get? caName, w.files.get? caKeyName with
    | some ca, some caKey =>
      if ca.key = caKey.key then
        .ok { files := (w.files.set (keyName stem) { key := w.nextKey, signer := none }).set
                (certName stem) { key := w.nextKey, signer := some caKey.key }
              nextKey := w.nextKey + 1 }
      else .error "openssl x509".toList
    | _, _ => .error "openssl x509".toList

/-- The pairs for a host of `$MASTERS`. -/
def masterStems (host : Text) : List Text :=
  ["member-".toList ++ host, "admin-".toList ++ host]

/-- `# Root CA`. -/
def copyCa (dir : PemDirectory) (nextKey : ℕ) : Except Text PemWork :=
  match dir.get? caKeyName with
  | some caKey =>
    match dir.get? caName with
    | some ca =>
      .ok { files := (OrderedDict.empty.set caName ca).set caKeyName caKey
            nextKey := nextKey }
    | none => .error "cp".toList
  | none =>
    .ok { files := (OrderedDict.empty.set caKeyName { key := nextKey, signer := none }).set caName
            { key := nextKey, signer := some nextKey }
          nextKey := nextKey + 1 }

/-- `# Install certs`. -/
def installPems (dir files : PemDirectory) : Except Text PemDirectory :=
  let made := if caKeyName ∈ dir.keys then (files.erase caName).erase caKeyName else files
  if made.keys = [] then .error "mv".toList else .ok (dir.overlay made)

/-- `make-ssl-etcd.sh`, for the words of `$MASTERS` and of `$HOSTS`. -/
def makeSslEtcdPems (masters hosts : List Text) (dir : PemDirectory) (nextKey : ℕ) :
    Except Text (PemDirectory × ℕ) := do
  let w ← copyCa dir nextKey
  let w ← masters.foldlM (fun w host => (masterStems host).foldlM issuePem w) w
  let w ← hosts.foldlM (fun w host => issuePem w (nodeStem host)) w
  let dir ← installPems dir w.files
  return (dir, w.nextKey)

/-! ### The two loops -/

/-- The pairs that a run is asked for. -/
def askedStems (masters hosts : List Text) : List Text :=
  masters.flatMap masterStems ++ hosts.map nodeStem

/-- Their files. -/
def pairFiles (stem : Text) : List Text :=
  [certName stem, keyName stem]

/-- The pairs that a run is asked for belong to hosts. -/
theorem mem_askedStems {masters hosts : List Text} {stem : Text} :
    stem ∈ askedStems masters hosts ↔
      (∃ host ∈ masters, stem = "member-".toList ++ host ∨ stem = "admin-".toList ++ host) ∨
        ∃ host ∈ hosts, stem = nodeStem host := by
  simp only [askedStems, List.mem_append, List.mem_flatMap, masterStems, List.mem_cons,
    List.not_mem_nil, or_false, List.mem_map, eq_comm]

/-- The loops go through the pairs one by one. -/
theorem foldlM_stems (masters hosts : List Text) (w : PemWork) :
    (askedStems masters hosts).foldlM issuePem w = (do
      let w ← masters.foldlM (fun w host => (masterStems host).foldlM issuePem w) w
      hosts.foldlM (fun w host => issuePem w (nodeStem host)) w) := by
  have hmasters : ∀ w, (masters.flatMap masterStems).foldlM issuePem w
      = masters.foldlM (fun w host => (masterStems host).foldlM issuePem w) w := by
    intro w
    induction masters generalizing w with
    | nil => rfl
    | cons host masters ih =>
        rw [List.flatMap_cons, List.foldlM_append, List.foldlM_cons]
        exact bind_congr ih
  rw [askedStems, List.foldlM_append, hmasters]
  exact bind_congr fun w => List.foldlM_map ..

/-- Certificates have different files. -/
theorem certName_injective : Function.Injective certName :=
  fun _ _ h => List.append_cancel_right h

/-- So have keys. -/
theorem keyName_injective : Function.Injective keyName :=
  fun _ _ h => List.append_cancel_right h

/-- The file of a key is that of a certificate for the name with `-key` at the end. -/
theorem keyName_eq_certName (stem : Text) : keyName stem = certName (stem ++ "-key".toList) := by
  rw [keyName, certName, List.append_assoc]
  rfl

/-- The files of a pair that the script is asked for do not begin like those of the
authority. -/
theorem head?_of_mem_pairFiles {masters hosts : List Text} {stem file : Text}
    (hstem : stem ∈ askedStems masters hosts) (hfile : file ∈ pairFiles stem) :
    file.head? ≠ some 'c' := by
  have hhead : stem.head? = some 'm' ∨ stem.head? = some 'a' ∨ stem.head? = some 'n' := by
    rcases mem_askedStems.mp hstem with ⟨host, -, rfl | rfl⟩ | ⟨host, -, rfl⟩
    · exact Or.inl rfl
    · exact Or.inr (Or.inl rfl)
    · exact Or.inr (Or.inr rfl)
  obtain ⟨end_, rfl⟩ : ∃ end_, file = stem ++ end_ := by
    simp only [pairFiles, List.mem_cons, List.not_mem_nil, or_false] at hfile
    rcases hfile with rfl | rfl
    · exact ⟨_, rfl⟩
    · exact ⟨_, rfl⟩
  rw [List.head?_append]
  rcases hhead with h | h | h <;> simp [h]

/-- The authority has no file of such a pair. -/
theorem ca_notMem {masters hosts : List Text} :
    caName ∉ (askedStems masters hosts).flatMap pairFiles ∧
      caKeyName ∉ (askedStems masters hosts).flatMap pairFiles := by
  refine ⟨fun hmem => ?_, fun hmem => ?_⟩
  · obtain ⟨stem, hstem, hfile⟩ := List.mem_flatMap.mp hmem
    exact head?_of_mem_pairFiles hstem hfile rfl
  · obtain ⟨stem, hstem, hfile⟩ := List.mem_flatMap.mp hmem
    exact head?_of_mem_pairFiles hstem hfile rfl

/-- A new key and a certificate for it, signed by an authority. -/
def NewPair (files : PemDirectory) (nextKey signer : ℕ) (stem : Text) : Prop :=
  ∃ key, nextKey ≤ key ∧ files.get? (certName stem) = some { key := key, signer := some signer } ∧
    files.get? (keyName stem) = some { key := key, signer := none }

/-- What issuing some pairs does to the working directory. -/
structure IssuedPems (stems : List Text) (signer : ℕ) (w w' : PemWork) : Prop where
  kept : ∀ file ∉ stems.flatMap pairFiles, w'.files.get? file = w.files.get? file
  made : ∀ file ∈ stems.flatMap pairFiles, w'.files.get? file ≠ none
  next : w.nextKey ≤ w'.nextKey
  pair : (∀ s ∈ stems, ∀ t ∈ stems, keyName s ≠ certName t) →
    ∀ s ∈ stems, NewPair w'.files w.nextKey signer s

/-- One pair is issued. -/
theorem issuePem_eq_ok {w : PemWork} {ca caKey : Pem} (hca : w.files.get? caName = some ca)
    (hcaKey : w.files.get? caKeyName = some caKey) (hvalid : ca.key = caKey.key) {stem : Text}
    (hshort : (commonName stem).length ≤ 64) :
    ∃ w', issuePem w stem = .ok w' ∧
      (∀ file, w'.files.get? file
        = if file = certName stem then some { key := w.nextKey, signer := some caKey.key }
          else if file = keyName stem then some { key := w.nextKey, signer := none }
          else w.files.get? file) ∧
      w'.nextKey = w.nextKey + 1 := by
  refine ⟨⟨(w.files.set (keyName stem) { key := w.nextKey, signer := none }).set (certName stem)
    { key := w.nextKey, signer := some caKey.key }, w.nextKey + 1⟩, ?_, fun file => ?_, rfl⟩
  · rw [issuePem, if_neg (not_lt.mpr hshort), hca, hcaKey]
    exact if_pos hvalid
  · rw [get?_set, get?_set]

/-- **What the two loops make**: with an authority whose key belongs to its certificate every
pair is issued. -/
theorem foldlM_issuePem {stems : List Text} {w : PemWork} {ca caKey : Pem}
    (hca : w.files.get? caName = some ca) (hcaKey : w.files.get? caKeyName = some caKey)
    (hvalid : ca.key = caKey.key) (hnotCa : caName ∉ stems.flatMap pairFiles)
    (hnotKey : caKeyName ∉ stems.flatMap pairFiles)
    (hshort : ∀ stem ∈ stems, (commonName stem).length ≤ 64) :
    ∃ w', stems.foldlM issuePem w = .ok w' ∧ IssuedPems stems ca.key w w' := by
  induction stems using List.reverseRecOn with
  | nil =>
      refine ⟨w, rfl, fun _ _ => rfl, fun file hfile => ?_, le_rfl, fun _ s hs => ?_⟩
      · cases hfile
      · cases hs
  | append_singleton stems stem ih =>
      rw [List.flatMap_append, List.mem_append, not_or] at hnotCa hnotKey
      obtain ⟨hshortAll, hshortLast⟩ := List.forall_mem_append.mp hshort
      obtain ⟨w₁, hrun, h₁⟩ := ih hnotCa.1 hnotKey.1 hshortAll
      have hca₁ : w₁.files.get? caName = some ca := (h₁.kept _ hnotCa.1).trans hca
      have hcaKey₁ : w₁.files.get? caKeyName = some caKey := (h₁.kept _ hnotKey.1).trans hcaKey
      obtain ⟨w', hstep, hget, hnext⟩ := issuePem_eq_ok hca₁ hcaKey₁ hvalid
        (hshortLast stem (List.mem_singleton_self stem))
      refine ⟨w', foldlM_append_eq_ok_iff.mpr
        ⟨w₁, hrun, foldlM_cons_eq_ok_iff.mpr ⟨w', hstep, rfl⟩⟩, ?_⟩
      have hfiles : (stems ++ [stem]).flatMap pairFiles
          = stems.flatMap pairFiles ++ [certName stem, keyName stem] := by
        rw [List.flatMap_append, List.flatMap_singleton, pairFiles]
      exact
        { kept := fun file hfile => by
            rw [hfiles, List.mem_append, not_or, List.mem_cons, List.mem_singleton, not_or] at hfile
            rw [hget, if_neg hfile.2.1, if_neg hfile.2.2, h₁.kept file hfile.1]
          made := fun file hfile => by
            rw [hfiles, List.mem_append, List.mem_cons, List.mem_singleton] at hfile
            rw [hget]
            split_ifs with hcert hkey
            · exact Option.some_ne_none _
            · exact Option.some_ne_none _
            · exact h₁.made file (hfile.resolve_right fun h => h.elim hcert hkey)
          next := by
            have hle := h₁.next
            omega
          pair := fun hne s hs => by
            have hlast : stem ∈ stems ++ [stem] := List.mem_append_right _ List.mem_cons_self
            by_cases heq : s = stem
            · subst heq
              refine ⟨w₁.nextKey, h₁.next, ?_, ?_⟩
              · rw [hget, if_pos rfl, hvalid]
              · rw [hget, if_neg (hne s hs s hs), if_pos rfl]
            · have hs' : s ∈ stems := (List.mem_append.mp hs).resolve_right fun h =>
                heq (List.mem_singleton.mp h)
              obtain ⟨key, hkey, hcertGet, hkeyGet⟩ := h₁.pair (fun s hs t ht =>
                hne s (List.mem_append_left _ hs) t (List.mem_append_left _ ht)) s hs'
              refine ⟨key, hkey, ?_, ?_⟩
              · rw [hget, if_neg fun h => heq (certName_injective h),
                  if_neg (hne stem hlast s hs).symm, hcertGet]
              · rw [hget, if_neg (hne s hs stem hlast),
                  if_neg fun h => heq (keyName_injective h), hkeyGet] }

/-! ### What the script generates -/

/-- The directory holds an authority whose key belongs to its certificate. -/
def ValidCa (dir : PemDirectory) : Prop :=
  ∃ ca caKey, dir.get? caName = some ca ∧ dir.get? caKeyName = some caKey ∧ ca.key = caKey.key

/-- The script succeeds, installs new pairs for exactly what it is asked for, signed by the
authority that was there, and leaves every other file unchanged. -/
def Generates (masters hosts : List Text) (dir : PemDirectory) (nextKey : ℕ) : Prop :=
  ∃ dir' nextKey', makeSslEtcdPems masters hosts dir nextKey = .ok (dir', nextKey') ∧
    (∀ ca, dir.get? caName = some ca →
      ∀ stem ∈ askedStems masters hosts, NewPair dir' nextKey ca.key stem) ∧
    ∀ file ∉ (askedStems masters hosts).flatMap pairFiles, dir'.get? file = dir.get? file

/-- No host of the list is called like another one with `-key` at the end. -/
def NoKeyName (hosts : List Text) : Prop :=
  ∀ host ∈ hosts, host ++ "-key".toList ∉ hosts

instance (hosts : List Text) : Decidable (NoKeyName hosts) :=
  inferInstanceAs (Decidable (∀ host ∈ hosts, host ++ "-key".toList ∉ hosts))

/-- Then no certificate has the file of a key. -/
theorem keyName_ne_certName_iff {masters hosts : List Text} :
    (∀ s ∈ askedStems masters hosts, ∀ t ∈ askedStems masters hosts, keyName s ≠ certName t) ↔
      NoKeyName masters ∧ NoKeyName hosts := by
  have hname : ∀ s t, keyName s = certName t ↔ t = s ++ "-key".toList := fun s t => by
    rw [keyName_eq_certName, certName_injective.eq_iff, eq_comm]
  simp only [ne_eq, hname]
  constructor
  · intro h
    refine ⟨fun host hmem hkey => ?_, fun host hmem hkey => ?_⟩
    · exact h _ (mem_askedStems.mpr (Or.inl ⟨host, hmem, Or.inl rfl⟩)) _
        (mem_askedStems.mpr (Or.inl ⟨_, hkey, Or.inl rfl⟩)) (List.append_assoc _ _ _).symm
    · exact h _ (mem_askedStems.mpr (Or.inr ⟨host, hmem, rfl⟩)) _
        (mem_askedStems.mpr (Or.inr ⟨_, hkey, rfl⟩)) (List.append_assoc _ _ _).symm
  · rintro ⟨hmasters, hhosts⟩ s hs t ht heq
    have hcancel : ∀ {start host other : Text}, start ++ other = start ++ host ++ "-key".toList →
        other = host ++ "-key".toList := fun h =>
      List.append_cancel_left (h.trans (List.append_assoc _ _ _))
    rw [mem_askedStems] at hs ht
    rcases hs with ⟨host, hmem, rfl | rfl⟩ | ⟨host, hmem, rfl⟩ <;>
      rcases ht with ⟨other, hother, rfl | rfl⟩ | ⟨other, hother, rfl⟩
    · exact hmasters host hmem (hcancel heq ▸ hother)
    · exact absurd (congrArg List.head? heq) (by simp)
    · exact absurd (congrArg List.head? heq) (by simp [nodeStem])
    · exact absurd (congrArg List.head? heq) (by simp)
    · exact hmasters host hmem (hcancel heq ▸ hother)
    · exact absurd (congrArg List.head? heq) (by simp [nodeStem])
    · exact absurd (congrArg List.head? heq) (by simp [nodeStem])
    · exact absurd (congrArg List.head? heq) (by simp [nodeStem])
    · exact hhosts host hmem (hcancel heq ▸ hother)

/-- The first label of a host. -/
def hostLabel (host : Text) : Text :=
  host.takeWhile (· ≠ '.')

/-- The common names of all pairs have at most 64 characters. -/
def ShortNames (masters hosts : List Text) : Prop :=
  (∀ host ∈ masters, (hostLabel host).length ≤ 52) ∧ ∀ host ∈ hosts, (hostLabel host).length ≤ 54

instance (masters hosts : List Text) : Decidable (ShortNames masters hosts) :=
  inferInstanceAs (Decidable (_ ∧ _))

/-- The length of a common name. -/
theorem length_commonName {kind : Text} (hkind : '.' ∉ kind) (host : Text) :
    (commonName (kind ++ host)).length = 5 + kind.length + (hostLabel host).length := by
  have hall : ∀ c ∈ kind, decide (c ≠ '.') = true := fun c hc =>
    decide_eq_true fun hdot => hkind (hdot ▸ hc)
  rw [commonName, List.takeWhile_append_of_pos hall, List.length_append, List.length_append,
    hostLabel, ← Nat.add_assoc]
  rfl

/-- **The common names that are not too long.** -/
theorem length_commonName_le_iff {masters hosts : List Text} :
    (∀ stem ∈ askedStems masters hosts, (commonName stem).length ≤ 64) ↔
      ShortNames masters hosts := by
  have hmember : ∀ host, (commonName ("member-".toList ++ host)).length
      = 12 + (hostLabel host).length := length_commonName (by decide)
  have hadmin : ∀ host, (commonName ("admin-".toList ++ host)).length
      = 11 + (hostLabel host).length := length_commonName (by decide)
  have hnode : ∀ host, (commonName (nodeStem host)).length
      = 10 + (hostLabel host).length := length_commonName (by decide)
  constructor
  · refine fun h => ⟨fun host hmem => ?_, fun host hmem => ?_⟩
    · have hle := h _ (mem_askedStems.mpr (Or.inl ⟨host, hmem, Or.inl rfl⟩))
      rw [hmember] at hle
      omega
    · have hle := h _ (mem_askedStems.mpr (Or.inr ⟨host, hmem, rfl⟩))
      rw [hnode] at hle
      omega
  · rintro ⟨hmasters, hhosts⟩ stem hstem
    rcases mem_askedStems.mp hstem with ⟨host, hmem, rfl | rfl⟩ | ⟨host, hmem, rfl⟩
    · have hle := hmasters host hmem
      rw [hmember]
      omega
    · have hle := hmasters host hmem
      rw [hadmin]
      omega
    · have hle := hhosts host hmem
      rw [hnode]
      omega

/-- **A common name that is too long** ends the script. -/
theorem commonName_of_foldlM {stems : List Text} {w w' : PemWork}
    (h : stems.foldlM issuePem w = .ok w') : ∀ stem ∈ stems, (commonName stem).length ≤ 64 := by
  induction stems generalizing w with
  | nil => exact fun _ hmem => nomatch hmem
  | cons stem stems ih =>
      obtain ⟨w₁, hstep, h⟩ := foldlM_cons_eq_ok_iff.mp h
      refine List.forall_mem_cons.mpr ⟨?_, ih h⟩
      rw [issuePem] at hstep
      split_ifs at hstep with hlong
      exact not_lt.mp hlong

/-- The working directory without the authority. -/
theorem get?_erase_ca (files : PemDirectory) (file : Text) :
    ((files.erase caName).erase caKeyName).get? file
      = if file = caName ∨ file = caKeyName then none else files.get? file := by
  by_cases hkey : file = caKeyName
  · rw [if_pos (Or.inr hkey), hkey, get?_erase_self]
  · rw [get?_erase_of_ne _ hkey]
    by_cases hca : file = caName
    · rw [if_pos (Or.inl hca), hca, get?_erase_self]
    · rw [if_neg (not_or.mpr ⟨hca, hkey⟩), get?_erase_of_ne _ hca]

/-- There is nothing in a directory with the files of no pair. -/
theorem keys_eq_nil_iff_stems {made : PemDirectory} {stems : List Text}
    (hmade : ∀ file, made.get? file ≠ none ↔ file ∈ stems.flatMap pairFiles) :
    made.keys = [] ↔ stems = [] := by
  rw [keys_eq_nil_iff]
  constructor
  · intro hnone
    refine List.eq_nil_iff_forall_not_mem.mpr fun stem hstem => ?_
    exact (hmade _).mpr (List.mem_flatMap.mpr ⟨stem, hstem, List.mem_cons_self⟩) (hnone _)
  · rintro rfl file
    by_contra hsome
    exact absurd ((hmade file).mp hsome) List.not_mem_nil

/-- **What the script moves**, in a directory with a valid authority: the files of the pairs
that it is asked for. -/
theorem makeSslEtcdPems_eq {dir : PemDirectory} {ca caKey : Pem} (hca : dir.get? caName = some ca)
    (hcaKey : dir.get? caKeyName = some caKey) (hvalid : ca.key = caKey.key)
    {masters hosts : List Text} (hshort : ShortNames masters hosts) (nextKey : ℕ) :
    ∃ (made : PemDirectory) (nextKey' : ℕ),
      (∀ file, made.get? file ≠ none ↔ file ∈ (askedStems masters hosts).flatMap pairFiles) ∧
      (NoKeyName masters ∧ NoKeyName hosts →
        ∀ stem ∈ askedStems masters hosts, NewPair made nextKey ca.key stem) ∧
      makeSslEtcdPems masters hosts dir nextKey
        = if askedStems masters hosts = [] then .error "mv".toList
          else .ok (dir.overlay made, nextKey') := by
  set w : PemWork := ⟨(OrderedDict.empty.set caName ca).set caKeyName caKey, nextKey⟩ with hw
  have hcopy : copyCa dir nextKey = .ok w := by
    rw [copyCa, hcaKey, hca]
  have hwCa : w.files.get? caName = some ca := by
    rw [hw, get?_set_of_ne _ _ (by decide), get?_set_self]
  have hwKey : w.files.get? caKeyName = some caKey := get?_set_self ..
  obtain ⟨w', hrun, hissued⟩ := foldlM_issuePem hwCa hwKey hvalid
    (@ca_notMem masters hosts).1 (@ca_notMem masters hosts).2 (length_commonName_le_iff.mpr hshort)
  set made := (w'.files.erase caName).erase caKeyName with hmade
  have hget : ∀ file ∈ (askedStems masters hosts).flatMap pairFiles,
      made.get? file = w'.files.get? file := by
    intro file hfile
    rw [hmade, get?_erase_ca, if_neg]
    rintro (rfl | rfl)
    · exact ca_notMem.1 hfile
    · exact ca_notMem.2 hfile
  have hthere : ∀ file,
      made.get? file ≠ none ↔ file ∈ (askedStems masters hosts).flatMap pairFiles := by
    intro file
    by_cases hfile : file ∈ (askedStems masters hosts).flatMap pairFiles
    · exact iff_of_true (hget file hfile ▸ hissued.made file hfile) hfile
    · refine iff_of_false (not_not.mpr ?_) hfile
      rw [hmade, get?_erase_ca]
      split_ifs with hca'
      · rfl
      · obtain ⟨hneCa, hneKey⟩ := not_or.mp hca'
        rw [hissued.kept file hfile, hw, get?_set_of_ne _ _ hneKey, get?_set_of_ne _ _ hneCa,
          get?_empty]
  refine ⟨made, w'.nextKey, hthere, fun hnames stem hstem => ?_, ?_⟩
  · obtain ⟨key, hkey, hcert, hkeyFile⟩ :=
      hissued.pair (keyName_ne_certName_iff.mpr hnames) stem hstem
    refine ⟨key, hkey, ?_, ?_⟩
    · rw [hget _ (List.mem_flatMap.mpr ⟨stem, hstem, List.mem_cons_self⟩), hcert]
    · rw [hget _ (List.mem_flatMap.mpr ⟨stem, hstem, List.mem_cons_of_mem _
        List.mem_cons_self⟩), hkeyFile]
  · have hempty := keys_eq_nil_iff_stems hthere
    have hinstall : installPems dir w'.files
        = if askedStems masters hosts = [] then .error "mv".toList
          else .ok (dir.overlay made) := by
      have hkey : caKeyName ∈ dir.keys := mem_keys_iff.mpr ⟨caKey, hcaKey⟩
      rw [installPems, if_pos hkey]
      exact if_congr hempty rfl rfl
    rw [foldlM_stems] at hrun
    obtain ⟨w₁, hmasters, hhosts⟩ := ok_of_bind hrun
    rw [makeSslEtcdPems, hcopy, ok_bind, hmasters, ok_bind, hhosts, ok_bind, hinstall]
    split_ifs <;> rfl

/-- A run that succeeds was asked for no common name that is too long. -/
theorem shortNames_of_makeSslEtcdPems {masters hosts : List Text} {dir dir' : PemDirectory}
    {nextKey nextKey' : ℕ} (h : makeSslEtcdPems masters hosts dir nextKey = .ok (dir', nextKey')) :
    ShortNames masters hosts := by
  obtain ⟨w, -, h⟩ := ok_of_bind h
  obtain ⟨w₁, hmasters, h⟩ := ok_of_bind h
  obtain ⟨w₂, hhosts, -⟩ := ok_of_bind h
  refine length_commonName_le_iff.mp (@commonName_of_foldlM _ w w₂ ?_)
  rw [foldlM_stems]
  exact bind_eq_ok_iff.mpr ⟨w₁, hmasters, hhosts⟩

/-- **When the script generates exactly what it is asked for**: it is asked for something, no
common name is too long, and no host takes a file of another one. -/
theorem generates_iff {dir : PemDirectory} (hvalid : ValidCa dir) (masters hosts : List Text)
    (nextKey : ℕ) :
    Generates masters hosts dir nextKey ↔
      (masters ≠ [] ∨ hosts ≠ []) ∧ ShortNames masters hosts ∧
        NoKeyName masters ∧ NoKeyName hosts := by
  obtain ⟨ca, caKey, hca, hcaKey, hpair⟩ := hvalid
  have hasked : askedStems masters hosts = [] ↔ ¬ (masters ≠ [] ∨ hosts ≠ []) := by
    rw [not_or, not_not, not_not, askedStems, List.append_eq_nil_iff, List.map_eq_nil_iff]
    refine and_congr_left fun _ => ⟨fun h => ?_, fun h => by rw [h]; rfl⟩
    cases masters with
    | nil => rfl
    | cons host masters => cases h
  constructor
  · rintro ⟨dir', k, hok, hnew, -⟩
    have hshort := shortNames_of_makeSslEtcdPems hok
    obtain ⟨made, nextKey', -, -, hrun⟩ := makeSslEtcdPems_eq hca hcaKey hpair hshort nextKey
    rw [hrun] at hok
    split_ifs at hok with hnone
    refine ⟨not_not.mp (hasked.not.mp hnone), hshort, keyName_ne_certName_iff.mp ?_⟩
    intro s hs t ht heq
    obtain ⟨_, -, -, hkey⟩ := hnew ca hca s hs
    obtain ⟨_, -, hcert, -⟩ := hnew ca hca t ht
    -- one file would be a key and a certificate
    rw [heq, hcert, Option.some.injEq, Pem.mk.injEq] at hkey
    cases hkey.2
  · rintro ⟨hsome, hshort, hnames⟩
    obtain ⟨made, nextKey', hthere, hmade, hrun⟩ :=
      makeSslEtcdPems_eq hca hcaKey hpair hshort nextKey
    refine ⟨_, _, by rw [hrun, if_neg fun h => hasked.mp h hsome], ?_, ?_⟩
    · intro ca' hca' stem hstem
      obtain rfl : ca = ca' := Option.some.inj (hca.symm.trans hca')
      obtain ⟨key, hkey, hcert, hkeyFile⟩ := hmade hnames stem hstem
      exact ⟨key, hkey, by rw [get?_overlay, hcert, Option.some_or],
        by rw [get?_overlay, hkeyFile, Option.some_or]⟩
    · intro file hfile
      rw [get?_overlay, not_not.mp ((hthere file).not.mpr hfile), Option.none_or]

/-- A directory that holds an authority, and the certificate of an earlier client. -/
def caDirectory : PemDirectory :=
  ofList [(caName, { key := 0, signer := some 0 }), (caKeyName, { key := 0, signer := none }),
    (certName (nodeStem "old".toList), { key := 1, signer := some 0 })]

/-- Its authority is valid. -/
theorem validCa_caDirectory : ValidCa caDirectory :=
  ⟨_, _, rfl, rfl, rfl⟩

/-- One member and one node. -/
theorem generates_pairs : Generates ["etcd1".toList] ["node1".toList] caDirectory 2 :=
  (generates_iff validCa_caDirectory _ _ 2).mpr
    ⟨Or.inl (by decide), by decide, by decide, by decide⟩

/-- With both lists blank there is nothing to move, and the script fails. -/
theorem generates_fails :
    ¬ ∀ (dir : PemDirectory), ValidCa dir → ∀ (masters hosts : List Text) (nextKey : ℕ),
      Generates masters hosts dir nextKey := by
  intro h
  obtain ⟨dir', nextKey', hok, -⟩ := h caDirectory validCa_caDirectory [] [] 2
  cases hok

/-! ### The files of `makeSslEtcd` -/

/-- The private keys. -/
def CertFile.isKey : CertFile → Bool
  | .caKey | .memberKey _ | .adminKey _ | .nodeKey _ => true
  | _ => false

/-- The name of a file. -/
def fileName (f : CertFile) : Text :=
  if f.isKey then keyName f.stem else certName f.stem

/-- The files that a run has to do with. -/
def scriptFiles (masters hosts : List Text) : List CertFile :=
  .ca :: .caKey :: madeFiles masters hosts

/-- What the name of a file begins with. -/
def CertFile.letter : CertFile → Char
  | .ca | .caKey => 'c'
  | .member _ | .memberKey _ => 'm'
  | .admin _ | .adminKey _ => 'a'
  | .node _ | .nodeKey _ => 'n'

theorem head?_stem (f : CertFile) : f.stem.head? = some f.letter := by
  cases f <;> rfl

/-- A pair has one certificate and one key. -/
theorem eq_of_stem_eq {f g : CertFile} (hkey : f.isKey = g.isKey) (hstem : f.stem = g.stem) :
    f = g := by
  have hletter : f.letter = g.letter := by
    rw [← Option.some.injEq, ← head?_stem, ← head?_stem, hstem]
  cases f <;> cases g <;>
    simp only [CertFile.isKey, CertFile.letter, Char.reduceEq, reduceCtorEq] at hkey hletter
  case ca.ca => rfl
  case caKey.caKey => rfl
  all_goals exact congrArg _ (List.append_cancel_left hstem)

/-- The pairs of the files that a run makes are those it is asked for. -/
theorem stem_mem_askedStems {masters hosts : List Text} {f : CertFile}
    (h : f ∈ madeFiles masters hosts) : f.stem ∈ askedStems masters hosts := by
  rw [mem_askedStems]
  simp only [madeFiles, issuedMember, nodeFiles, List.mem_append, List.mem_flatMap, List.mem_cons,
    List.not_mem_nil, or_false] at h
  rcases h with ⟨host, hmem, (rfl | rfl) | rfl | rfl⟩ | ⟨host, hmem, rfl | rfl⟩
  · exact Or.inl ⟨host, hmem, Or.inl rfl⟩
  · exact Or.inl ⟨host, hmem, Or.inl rfl⟩
  · exact Or.inl ⟨host, hmem, Or.inr rfl⟩
  · exact Or.inl ⟨host, hmem, Or.inr rfl⟩
  · exact Or.inr ⟨host, hmem, rfl⟩
  · exact Or.inr ⟨host, hmem, rfl⟩

/-- The files of a run have different names. -/
theorem fileName_injOn {masters hosts : List Text} (hnames : NoKeyName masters ∧ NoKeyName hosts) :
    ∀ f ∈ scriptFiles masters hosts, ∀ g ∈ scriptFiles masters hosts, fileName f = fileName g →
      f = g := by
  have hstem : ∀ f ∈ scriptFiles masters hosts,
      f.stem = "ca".toList ∨ f.stem ∈ askedStems masters hosts := by
    intro f hf
    rcases List.mem_cons.mp hf with rfl | hf
    · exact Or.inl rfl
    rcases List.mem_cons.mp hf with rfl | hf
    · exact Or.inl rfl
    · exact Or.inr (stem_mem_askedStems hf)
  have hne : ∀ f ∈ scriptFiles masters hosts, ∀ g ∈ scriptFiles masters hosts,
      keyName f.stem ≠ certName g.stem := by
    intro f hf g hg heq
    rcases hstem f hf with hf | hf <;> rcases hstem g hg with hg | hg
    · rw [hf, hg] at heq
      exact absurd heq (by decide)
    · refine ca_notMem.2 (List.mem_flatMap.mpr ⟨_, hg, List.mem_cons.mpr (Or.inl ?_)⟩)
      rw [← heq, hf]
      rfl
    · refine ca_notMem.1 (List.mem_flatMap.mpr
        ⟨_, hf, List.mem_cons_of_mem _ (List.mem_singleton.mpr ?_)⟩)
      rw [heq, hg]
      rfl
    · exact keyName_ne_certName_iff.mpr hnames _ hf _ hg heq
  intro f hf g hg heq
  rw [fileName, fileName] at heq
  split_ifs at heq with hfkey hgkey hgkey
  · exact eq_of_stem_eq (hfkey.trans hgkey.symm) (keyName_injective heq)
  · exact absurd heq (hne f hf g hg)
  · exact absurd heq.symm (hne g hg f hf)
  · refine eq_of_stem_eq ?_ (certName_injective heq)
    rw [Bool.eq_false_of_not_eq_true hfkey, Bool.eq_false_of_not_eq_true hgkey]

/-- A directory whose files are among some, and the same one under their names. -/
structure Named (fs : List CertFile) (d : Directory) (pems : PemDirectory) : Prop where
  files : ∀ f ∈ d.keys, f ∈ fs
  keys : pems.keys = d.keys.map fileName
  get : ∀ f ∈ fs, pems.get? (fileName f) = d.get? f

section Simulation

variable {fs : List CertFile}
  (hinj : ∀ f ∈ fs, ∀ g ∈ fs, fileName f = fileName g → f = g)

include hinj

/-- A name stands in the directory of names when its file does in the other one. -/
theorem Named.mem_keys_iff {d : Directory} {pems : PemDirectory} (h : Named fs d pems)
    {f : CertFile} (hf : f ∈ fs) : fileName f ∈ pems.keys ↔ f ∈ d.keys := by
  rw [h.keys]
  constructor
  · intro hmem
    obtain ⟨g, hg, heq⟩ := List.mem_map.mp hmem
    exact hinj g (h.files g hg) f hf heq ▸ hg
  · exact List.mem_map_of_mem

/-- Writing a file. -/
theorem Named.set {d : Directory} {pems : PemDirectory} (h : Named fs d pems) {f : CertFile}
    (hf : f ∈ fs) (p : Pem) : Named fs (d.set f p) (pems.set (fileName f) p) where
  files g hg := by
    rw [keys_set, mem_addKey] at hg
    rcases hg with hg | rfl
    · exact h.files g hg
    · exact hf
  keys := by
    rw [keys_set, keys_set]
    by_cases hmem : f ∈ d.keys
    · rw [addKey_of_mem hmem, addKey_of_mem ((h.mem_keys_iff hinj hf).mpr hmem), h.keys]
    · rw [addKey_of_notMem hmem, addKey_of_notMem ((h.mem_keys_iff hinj hf).not.mpr hmem), h.keys,
        List.map_append, List.map_singleton]
  get g hg := by
    rw [get?_set, get?_set, h.get g hg]
    exact if_congr ⟨hinj g hg f hf, congrArg fileName⟩ rfl rfl

/-- Removing a file. -/
theorem Named.erase {d : Directory} {pems : PemDirectory} (h : Named fs d pems) {f : CertFile}
    (hf : f ∈ fs) : Named fs (d.erase f) (pems.erase (fileName f)) where
  files g hg := by
    rw [keys_erase] at hg
    exact h.files g (List.mem_of_mem_filter hg)
  keys := by
    rw [keys_erase, keys_erase, h.keys, List.filter_map]
    refine congrArg _ (List.filter_congr fun g hg => decide_eq_decide.mpr ?_)
    exact not_congr ⟨hinj g (h.files g hg) f hf, congrArg fileName⟩
  get g hg := by
    by_cases heq : g = f
    · rw [heq, get?_erase_self, get?_erase_self]
    · rw [get?_erase_of_ne _ heq, get?_erase_of_ne _ fun h => heq (hinj g hg f hf h), h.get g hg]

/-- The working directories of a run. -/
def NamedWork (fs : List CertFile) (w : Work) (p : PemWork) : Prop :=
  Named fs w.files p.files ∧ p.nextKey = w.nextKey

/-- Issuing a pair. -/
theorem issuePem_of_issue (hca : .ca ∈ fs) (hcaKey : .caKey ∈ fs) {cert key : CertFile}
    (hcert : cert ∈ fs) (hkey : key ∈ fs) (hcertName : fileName cert = certName cert.stem)
    (hkeyName : fileName key = keyName cert.stem) {w w' : Work} {p : PemWork}
    (h : NamedWork fs w p) (hissue : issue cert key w = .ok w') :
    ∃ p', issuePem p cert.stem = .ok p' ∧ NamedWork fs w' p' := by
  obtain ⟨hfiles, hnext⟩ := h
  have hgetCa : p.files.get? caName = w.files.get? .ca := hfiles.get .ca hca
  have hgetKey : p.files.get? caKeyName = w.files.get? .caKey := hfiles.get .caKey hcaKey
  rw [issue] at hissue
  split_ifs at hissue with hlong
  rw [issuePem, if_neg hlong, hgetCa, hgetKey]
  cases hgot : w.files.get? .ca with
  | none =>
      rw [hgot] at hissue
      cases hissue
  | some ca =>
      rw [hgot] at hissue
      cases hgotKey : w.files.get? .caKey with
      | none =>
          rw [hgotKey] at hissue
          cases hissue
      | some caKey =>
          rw [hgotKey] at hissue
          dsimp only at hissue ⊢
          split_ifs at hissue with hpair
          cases hissue
          refine ⟨_, if_pos hpair, ?_, congrArg (· + 1) hnext⟩
          rw [← hcertName, ← hkeyName, hnext]
          exact (hfiles.set hinj hkey _).set hinj hcert _

end Simulation

/-- An empty directory. -/
theorem named_empty (fs : List CertFile) : Named fs OrderedDict.empty OrderedDict.empty where
  files f hf := by cases hf
  keys := rfl
  get _ _ := rfl

/-- The authority. -/
theorem copyCa_of_rootCa {fs : List CertFile}
    (hinj : ∀ f ∈ fs, ∀ g ∈ fs, fileName f = fileName g → f = g) (hca : .ca ∈ fs)
    (hcaKey : .caKey ∈ fs) {dir : Directory} {pems : PemDirectory}
    (hdir : ∀ f ∈ fs, pems.get? (fileName f) = dir.get? f) {k : ℕ} {w : Work}
    (h : rootCa dir k = .ok w) : ∃ p, copyCa pems k = .ok p ∧ NamedWork fs w p := by
  have hgetCa : pems.get? caName = dir.get? .ca := hdir .ca hca
  have hgetKey : pems.get? caKeyName = dir.get? .caKey := hdir .caKey hcaKey
  rw [rootCa] at h
  rw [copyCa, hgetKey, hgetCa]
  cases hgotKey : dir.get? .caKey with
  | none =>
      rw [hgotKey] at h
      cases h
      exact ⟨_, rfl, ((named_empty fs).set hinj hcaKey _).set hinj hca _, rfl⟩
  | some caKey =>
      rw [hgotKey] at h
      cases hgot : dir.get? .ca with
      | none =>
          rw [hgot] at h
          cases h
      | some ca =>
          rw [hgot] at h
          cases h
          exact ⟨_, rfl, ((named_empty fs).set hinj hca ca).set hinj hcaKey caKey, rfl⟩

/-- Moving what was made. -/
theorem installPems_of_install {fs : List CertFile}
    (hinj : ∀ f ∈ fs, ∀ g ∈ fs, fileName f = fileName g → f = g) (hca : .ca ∈ fs)
    (hcaKey : .caKey ∈ fs) {dir files dir' : Directory} {pems made : PemDirectory}
    (hdir : ∀ f ∈ fs, pems.get? (fileName f) = dir.get? f) (hmade : Named fs files made)
    (h : install dir files = .ok dir') :
    ∃ pems', installPems pems made = .ok pems' ∧
      ∀ f ∈ fs, pems'.get? (fileName f) = dir'.get? f := by
  have hkey : caKeyName ∈ pems.keys ↔ .caKey ∈ dir.keys := by
    rw [OrderedDict.mem_keys_iff, OrderedDict.mem_keys_iff, ← hdir .caKey hcaKey]
    rfl
  have hmoved : Named fs (if .caKey ∈ dir.keys then (files.erase .ca).erase .caKey else files)
      (if caKeyName ∈ pems.keys then (made.erase caName).erase caKeyName else made) := by
    rw [if_congr hkey rfl rfl]
    split_ifs
    · exact (hmade.erase hinj hca).erase hinj hcaKey
    · exact hmade
  unfold install at h
  unfold installPems
  dsimp only at h ⊢
  generalize (if .caKey ∈ dir.keys then (files.erase .ca).erase .caKey else files) = moved
    at h hmoved
  generalize (if caKeyName ∈ pems.keys then (made.erase caName).erase caKeyName else made)
    = movedPems at hmoved ⊢
  split_ifs at h with hnone
  cases h
  rw [← List.map_eq_nil_iff (f := fileName), ← hmoved.keys] at hnone
  rw [if_neg hnone]
  refine ⟨_, rfl, fun f hf => ?_⟩
  rw [get?_overlay, get?_overlay, hmoved.get f hf, hdir f hf]

/-- **The names of the files of `makeSslEtcd`**: where no host takes a file of another one, a
run that makes files makes those of their names. -/
theorem makeSslEtcdPems_of_makeSslEtcd {masters hosts : List Text}
    (hnames : NoKeyName masters ∧ NoKeyName hosts) {dir dir' : Directory} {pems : PemDirectory}
    (hdir : ∀ f ∈ scriptFiles masters hosts, pems.get? (fileName f) = dir.get? f) {k k' : ℕ}
    (h : makeSslEtcd masters hosts dir k = .ok (dir', k')) :
    ∃ pems', makeSslEtcdPems masters hosts pems k = .ok (pems', k') ∧
      ∀ f ∈ scriptFiles masters hosts, pems'.get? (fileName f) = dir'.get? f := by
  have hinj := fileName_injOn hnames
  set fs := scriptFiles masters hosts with hfs
  have hca : .ca ∈ fs := List.mem_cons_self
  have hcaKey : .caKey ∈ fs := List.mem_cons_of_mem _ List.mem_cons_self
  have hmade : ∀ f ∈ madeFiles masters hosts, f ∈ fs := fun f hf =>
    List.mem_cons_of_mem _ (List.mem_cons_of_mem _ hf)
  obtain ⟨w₀, hroot, h⟩ := ok_of_bind h
  obtain ⟨w₁, hmasters, h⟩ := ok_of_bind h
  obtain ⟨w₂, hhosts, h⟩ := ok_of_bind h
  obtain ⟨dir₁, hinstall, h⟩ := ok_of_bind h
  cases h
  obtain ⟨p₀, hcopy, hp₀⟩ := copyCa_of_rootCa hinj hca hcaKey hdir hroot
  obtain ⟨p₁, hmasters, hp₁⟩ := foldlM_simulates
    (g := fun w host => (masterStems host).foldlM issuePem w) (fun w p host w' hhost hp hissue => by
      have hfiles : ∀ f ∈ issuedMember host, f ∈ fs := fun f hf =>
        hmade f (List.mem_append_left _ (List.mem_flatMap.mpr ⟨host, hhost, hf⟩))
      obtain ⟨w₁, hmember, hadmin⟩ := ok_of_bind hissue
      obtain ⟨p₁, hmember, hp₁⟩ := issuePem_of_issue hinj hca hcaKey
        (hfiles (.member host) (by simp [issuedMember]))
        (hfiles (.memberKey host) (by simp [issuedMember])) rfl rfl hp hmember
      obtain ⟨p₂, hadmin, hp₂⟩ := issuePem_of_issue hinj hca hcaKey
        (hfiles (.admin host) (by simp [issuedMember]))
        (hfiles (.adminKey host) (by simp [issuedMember])) rfl rfl hp₁ hadmin
      exact ⟨p₂, foldlM_cons_eq_ok_iff.mpr ⟨p₁, hmember,
        foldlM_cons_eq_ok_iff.mpr ⟨p₂, hadmin, rfl⟩⟩, hp₂⟩) hp₀ hmasters
  obtain ⟨p₂, hhosts, hp₂⟩ := foldlM_simulates
    (g := fun w host => issuePem w (nodeStem host)) (fun w p host w' hhost hp hissue => by
      have hfiles : ∀ f ∈ nodeFiles host, f ∈ fs := fun f hf =>
        hmade f (List.mem_append_right _ (List.mem_flatMap.mpr ⟨host, hhost, hf⟩))
      exact issuePem_of_issue hinj hca hcaKey (hfiles (.node host) (by simp [nodeFiles]))
        (hfiles (.nodeKey host) (by simp [nodeFiles])) rfl rfl hp hissue) hp₁ hhosts
  obtain ⟨pems', hinstall, hpems'⟩ := installPems_of_install hinj hca hcaKey hdir hp₂.1 hinstall
  refine ⟨pems', ?_, hpems'⟩
  rw [makeSslEtcdPems, hcopy, ok_bind, hmasters, ok_bind, hhosts, ok_bind, hinstall, ok_bind, hp₂.2]
  rfl

end Kubespray.EtcdCerts
