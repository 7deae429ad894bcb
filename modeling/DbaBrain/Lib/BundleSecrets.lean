import DbaBrain.Lib.BundlePaths

/-!
# A bundle without secrets

An export that leaves the secret store out is the same whatever the store holds.
An import that leaves secrets out goes by the role an entry states: the store is
neither read nor written unless an entry of another role states its path, which no
bundle that was built here has.
-/

namespace DbaBrain.Lib.ConfigBundle

open DbaBrain.Foundation
open FileTree (Tree SameBut SameResult)

def secretPath (root : Path) : Path := root ++ secretStoreRelative

/-! ## The export -/

section Export

variable {python : Python} {first second : Files} {root : Path}
variable {name : FileName} {files : Files}

theorem ne_secretPath {front : Path} (apart : name ≠ secretName) : front ++ [name] ≠ secretPath root := by
  intro same
  have ends : (front ++ [name]).getLast? = (root ++ [dataName] ++ [secretName]).getLast? := by
    rw [same, secretPath, secretStoreRelative, List.append_assoc]
    rfl
  rw [List.getLast?_concat, List.getLast?_concat] at ends
  exact apart (Option.some.inj ends)

theorem number_injective : Function.Injective CodePoint.number := by
  intro first second same
  cases first with
  | char c =>
    cases second with
    | char d => rw [Char.toNat_inj.mp same]
    | surrogate offset =>
      have outside := Json.toNat_ranges c
      have numbers : c.toNat = 55296 + offset.val := same
      omega
  | surrogate offset =>
    cases second with
    | char d =>
      have outside := Json.toNat_ranges d
      have numbers : 55296 + offset.val = d.toNat := same
      omega
    | surrogate other =>
      have numbers : 55296 + offset.val = 55296 + other.val := same
      rw [Fin.ext (show offset.val = other.val by omega)]

theorem pathOrder_injective : Function.Injective pathOrder := by
  apply List.map_injective_iff.mpr
  intro first second same
  exact Subtype.ext (List.map_injective_iff.mpr number_injective same)

theorem sourceAt_eq (same : SameBut (secretPath root) first second) (front : Path) (apart : name ≠ secretName)
    (relative : Str) (role : Role) :
    sourceAt first (front ++ [name]) relative role = sourceAt second (front ++ [name]) relative role := by
  rw [sourceAt, same.content? (ne_secretPath apart), sourceAt]

theorem dataSource_eq (same : SameBut (secretPath root) first second) (data : Path) {name : Str}
    (apart : name ≠ secretName.val) : dataSource first data name = dataSource second data name := by
  rw [dataSource, dataSource]
  cases fits : fileName? name with
  | none => rfl
  | some file =>
    refine sourceAt_eq same data (fun secret => apart ?_) _ _
    rw [← val_of_fileName? fits, secret]

theorem isAsset_secretPath {directory : Path} (listed : directory ∈ estateAssetDirs) :
    isAsset (root ++ directory) (secretPath root) = false := by
  have outside : ∀ directory ∈ estateAssetDirs, ¬ directory <+: secretStoreRelative := by decide
  rw [isAsset, Bool.and_eq_false_iff, Bool.and_eq_false_iff]
  refine Or.inl (Or.inl ?_)
  rw [← Bool.not_eq_true, List.isPrefixOf_iff_prefix, secretPath, List.prefix_append_right_inj]
  exact outside directory listed

theorem assetFiles_eq (same : SameBut (secretPath root) first second) :
    assetFiles first root = assetFiles second root := by
  have each : ∀ directory ∈ estateAssetDirs,
      Selection.sortedBy (fun entry : Path × Bytes => pathOrder entry.1)
          (FileTree.filesWhere (isAsset (root ++ directory)) first) =
        Selection.sortedBy (fun entry : Path × Bytes => pathOrder entry.1)
          (FileTree.filesWhere (isAsset (root ++ directory)) second) := by
    intro directory listed
    apply Selection.sortedBy_eq_of_perm (same.filesWhere_perm (isAsset_secretPath listed))
    have distinct := FileTree.nodup_filesWhere (isAsset (root ++ directory)) first
    have ordered := distinct.map pathOrder_injective
    rwa [List.map_map] at ordered
  rw [assetFiles, assetFiles]
  refine List.flatMap_congr fun directory listed => ?_
  rw [same.isDirectory, each directory listed]

variable {names : List Str}

theorem sources_eq (same : SameBut (secretPath root) first second) (request : Export) (at_root : request.root = root)
    (without : request.includeSecrets = false) (apart : ∀ name ∈ names, name ≠ secretName.val) :
    sources first request names = sources second request names := by
  have named : names.map (dataSource first request.data) = names.map (dataSource second request.data) :=
    List.map_congr_left fun name member => dataSource_eq same request.data (apart name member)
  have inventory : inventorySources first root = inventorySources second root := by
    have elsewhere : root ++ [dataName, inventoryName] ≠ secretPath root := by
      rw [show root ++ [dataName, inventoryName] = (root ++ [dataName]) ++ [inventoryName] by simp]
      exact ne_secretPath (by decide)
    rw [inventorySources, same.content? elsewhere, inventorySources]
  subst at_root
  have config := sourceAt_eq same request.root (show configName ≠ secretName by decide) configName.val
    .toolConfig
  have catalog := sourceAt_eq same request.data (show catalogName ≠ secretName by decide)
    (relativeText [dataName, catalogName]) .configCatalog
  rw [sources, sources, without, named, inventory, assetFiles_eq same, config, catalog]
  rfl

theorem travelling_ne_secret {data catalogue : Path}
    (travelling : travellingDataFiles python files data catalogue = .ok names) :
    ∀ name ∈ names, name ≠ secretName.val := by
  intro name member
  obtain ⟨manifest, _, same⟩ := Execution.bind_eq_ok travelling
  obtain rfl := Except.ok.inj same
  obtain ⟨item, listed, rfl⟩ := List.mem_map.mp member
  have kept := (List.mem_filter.mp listed).2
  rw [Bool.and_eq_true, decide_eq_true_eq, decide_eq_true_eq] at kept
  rintro secret
  rw [secret] at kept
  exact kept.2 (by decide)

theorem names_ne_secret {request : Export} (checked : checkedNames python files request = .ok names) :
    ∀ name ∈ names, name ≠ secretName.val := by
  obtain ⟨_, _, later⟩ := Execution.bind_eq_ok checked
  obtain ⟨_, _, travelling⟩ := Execution.bind_eq_ok later
  exact travelling_ne_secret travelling

theorem checkedNames_eq (same : SameBut (secretPath root) first second) (request : Export) :
    checkedNames python first request = checkedNames python second request := by
  have config := sourceAt_eq same request.root (show configName ≠ secretName by decide) configName.val .toolConfig
  have catalogued : cataloguedFiles python first request.data = cataloguedFiles python second request.data := by
    rw [cataloguedFiles, same.content? (ne_secretPath (by decide)), cataloguedFiles]
  have manifest : ∀ front : Path, FileTree.content? first (front ++ [manifestName]) =
      FileTree.content? second (front ++ [manifestName]) := fun front => same.content? (ne_secretPath (by decide))
  have travelling : travellingDataFiles python first request.data request.catalogue =
      travellingDataFiles python second request.data request.catalogue := by
    rw [travellingDataFiles, travellingDataFiles, loadManifest, loadManifest, manifest, manifest]
  rw [checkedNames, checkedNames, config, catalogued, travelling]

/-- The bundle does not tell what the secret store holds. -/
theorem buildBundle_eq (same : SameBut (secretPath root) first second) (request : Export)
    (at_root : request.root = root) (without : request.includeSecrets = false) :
    buildBundle python first request = buildBundle python second request := by
  rw [buildBundle, buildBundle, checkedNames_eq same request]
  cases checked : checkedNames python second request with
  | error why => rfl
  | ok names =>
    have found := sources_eq same request at_root without (names_ne_secret checked)
    change bundleOf python request _ = bundleOf python request _
    rw [found]

end Export

/-! ## The import -/

section Import

variable {python : Python} {first second : Files} {root path : Path}

/-- A step on two trees that are the same but for one file goes through on both or on neither. -/
structure SameStep (path : Path) (one other : Step) : Prop where
  through : one.2 = other.2
  trees : SameBut path one.1 other.1

theorem SameStep.andThen {one other : Step} {next : Files → Step} (steps : SameStep path one other)
    (later : ∀ first second, SameBut path first second → SameStep path (next first) (next second)) :
    SameStep path (one.andThen next) (other.andThen next) := by
  rw [Step.andThen, Step.andThen, steps.through]
  split
  · exact later _ _ steps.trees
  · exact steps

theorem sameStep_stepOf (same : SameBut path first second) {one other : Option Files}
    (results : SameResult path one other) : SameStep path (stepOf first one) (stepOf second other) := by
  cases one with
  | none =>
    cases other with
    | none => exact ⟨rfl, same⟩
    | some after => exact results.elim
  | some after =>
    cases other with
    | none => exact results.elim
    | some later => exact ⟨rfl, results⟩

variable {staging target : Path}

theorem sameStep_placeBeside (same : SameBut path first second) (payload : Bytes) (fault : Option Fault)
    (own : staging ≠ path) (apart : target ≠ path) :
    SameStep path (placeBeside first staging target payload fault) (placeBeside second staging target payload fault) := by
  have parents : SameStep path (makeParents first target fault) (makeParents second target fault) := by
    rw [makeParents.eq_def, makeParents.eq_def]
    split
    · exact ⟨rfl, same.makeFirst target.dropLast _⟩
    · exact sameStep_stepOf same (same.makeDirectories target.dropLast)
  refine parents.andThen fun first second same => ?_
  have staged : SameStep path (writeStaging first staging payload fault) (writeStaging second staging payload fault) := by
    rw [writeStaging.eq_def, writeStaging.eq_def]
    split
    · exact ⟨rfl, same⟩
    · exact ⟨rfl, (sameStep_stepOf same (same.writeFile own _)).trees⟩
    · exact sameStep_stepOf same (same.writeFile own payload)
  refine staged.andThen fun first second same => ?_
  rw [moveStaging.eq_def, moveStaging.eq_def]
  split
  · exact ⟨rfl, same⟩
  · exact sameStep_stepOf same (same.moveFile own apart)

theorem staging_ne_secretPath (beside : staging? target = some staging) : staging ≠ secretPath root := by
  obtain ⟨front, last, name, _, fits, rfl⟩ := staging?_of_target beside
  apply ne_secretPath
  intro secret
  have named := val_of_fileName? fits
  rw [secret, stagingName] at named
  have ends : (str ".dbabrain-import").isSuffixOf secretName.val = true := by
    rw [List.isSuffixOf_iff_suffix, named]
    exact List.suffix_append _ _
  exact absurd ends (by decide)

theorem sameStep_placeEntry (same : SameBut (secretPath root) first second) {target : Option Path} (payload : Bytes)
    (fault : Option Fault) (apart : target ≠ some (secretPath root)) :
    SameStep (secretPath root) (placeEntry first target payload fault) (placeEntry second target payload fault) := by
  cases target with
  | none => exact ⟨rfl, same⟩
  | some target =>
    rw [placeEntry, placeEntry]
    cases beside : staging? target with
    | none => exact ⟨rfl, same⟩
    | some staging =>
      exact sameStep_placeBeside same payload fault (staging_ne_secretPath beside)
        fun here => apart (congrArg some here)

/-- An entry that states another path is placed elsewhere. -/
theorem target?_ne_secretPath {path : Str} (apart : path ≠ relativeText secretStoreRelative) :
    target? root path ≠ some (secretPath root) := by
  intro here
  obtain ⟨relative, placed, same⟩ := Option.map_eq_some_iff.mp here
  rw [secretPath, List.append_cancel_left_eq] at same
  exact apart (same ▸ eq_relativeText_of_place? placed)

theorem planEntry_eq (same : SameBut (secretPath root) first second) {entry : BundleEntry python}
    (apart : entry.path ≠ relativeText secretStoreRelative) :
    planEntry first root entry = planEntry second root entry := by
  have elsewhere := @target?_ne_secretPath root _ apart
  have action : ∀ payload, actionAt first (target? root entry.path) payload =
      actionAt second (target? root entry.path) payload := by
    intro payload
    cases place : target? root entry.path with
    | none => rfl
    | some target =>
      rw [place] at elsewhere
      rw [actionAt, actionAt]
      rw [same.isThere, same.content? fun here => elsewhere (congrArg some here)]
  rw [planEntry, planEntry]
  simp only [action]

variable {entries : List (BundleEntry python)}

theorem planned_eq (same : SameBut (secretPath root) first second)
    (apart : ∀ entry ∈ entries, entry.path ≠ relativeText secretStoreRelative) :
    planned first root entries = planned second root entries := by
  rw [planned, planned]
  induction entries with
  | nil => rfl
  | cons entry rest ih =>
    rw [List.mapM_cons, List.mapM_cons, planEntry_eq same (apart entry List.mem_cons_self),
      ih fun other member => apart other (List.mem_cons_of_mem entry member)]

/-- Where no plan states the secret store's path, the loop does the same on both trees, and leaves the store. -/
theorem placeAll_same (faults : Str → Option Fault) {plans : List Planned}
    (apart : ∀ plan ∈ plans, plan.path ≠ relativeText secretStoreRelative)
    (same : SameBut (secretPath root) first second) :
    (placeAll root faults first plans).2 = (placeAll root faults second plans).2 ∧
      SameBut (secretPath root) (placeAll root faults first plans).1 (placeAll root faults second plans).1 := by
  induction plans generalizing first second with
  | nil => exact ⟨rfl, same⟩
  | cons plan rest ih =>
    have others := fun other member => apart other (List.mem_cons_of_mem plan member)
    rw [placeAll, placeAll]
    split
    · exact ih others same
    · have step := sameStep_placeEntry same plan.payload (faults plan.path)
        (target?_ne_secretPath (apart plan List.mem_cons_self))
      rcases one : placeEntry first (target? root plan.path) plan.payload (faults plan.path) with ⟨after, through⟩
      rcases two : placeEntry second (target? root plan.path) plan.payload (faults plan.path) with ⟨later, done⟩
      rw [one, two] at step
      obtain rfl : through = done := step.through
      cases through with
      | true => exact ih others step.trees
      | false => exact ⟨rfl, step.trees⟩

/-- The whole import: the same result on both trees, which stay the same but for the store. -/
theorem applyBundle_same (same : SameBut (secretPath root) first second)
    (apart : ∀ entry ∈ entries, entry.path ≠ relativeText secretStoreRelative) (force : Bool)
    (faults : Str → Option Fault) :
    (applyBundle first root entries force faults).2 = (applyBundle second root entries force faults).2 ∧
      SameBut (secretPath root) (applyBundle first root entries force faults).1
        (applyBundle second root entries force faults).1 := by
  rw [applyBundle, applyBundle, planned_eq same apart]
  cases plan : planned second root entries with
  | error why => exact ⟨rfl, same⟩
  | ok plans =>
    dsimp only
    split
    · exact ⟨rfl, same⟩
    · have stated : ∀ plan ∈ plans, plan.path ≠ relativeText secretStoreRelative := by
        intro write member
        obtain ⟨entry, listed, named⟩ := path_of_planned plan member
        rw [named]
        exact apart entry listed
      obtain ⟨stopped, trees⟩ := placeAll_same faults stated same
      rcases one : placeAll root faults first plans with ⟨after, at_first⟩
      rcases two : placeAll root faults second plans with ⟨later, at_second⟩
      rw [one, two] at stopped trees
      obtain rfl : at_first = at_second := stopped
      cases at_first with
      | none => exact ⟨rfl, trees⟩
      | some path => exact ⟨rfl, trees⟩

/-- Where no entry states its path, the store holds what it held. -/
theorem content?_applyBundle_secret {files : Files}
    (apart : ∀ entry ∈ entries, entry.path ≠ relativeText secretStoreRelative) (force : Bool)
    (faults : Str → Option Fault) :
    FileTree.content? (applyBundle files root entries force faults).1 (secretPath root) =
      FileTree.content? files (secretPath root) := by
  rw [applyBundle]
  cases plan : planned files root entries with
  | error why => rfl
  | ok plans =>
    dsimp only
    split
    · rfl
    · have kept : FileTree.content? (placeAll root faults files plans).1 (secretPath root) =
          FileTree.content? files (secretPath root) := by
        apply content?_placeAll_other
        intro write member target place
        obtain ⟨entry, listed, named⟩ := path_of_planned plan member
        have elsewhere := @target?_ne_secretPath root _ (apart entry listed)
        rw [← named, place] at elsewhere
        exact ⟨fun here => elsewhere (congrArg some here.symm), fun beside => staging_ne_secretPath beside rfl⟩
      rcases placed : placeAll root faults files plans with ⟨after, stopped⟩
      rw [placed] at kept
      cases stopped with
      | none => exact kept
      | some path => exact kept

end Import

/-! ## What a built bundle states -/

section Built

variable {python : Python} {files : Files} {request : Export}

/-- A name a manifest can give: stripped, with no slash of either kind, and no dot alone. -/
structure IsDataName (name : Str) : Prop where
  stripped : Str.strip name = name
  some_point : name ≠ []
  bare : isBare name = true

theorem strip_strip (value : Str) : Str.strip (Str.strip value) = Str.strip value := by
  have cut : ∀ text : Str, ∀ point ∈ (text.dropWhile CodePoint.isSpace).head?, point.isSpace = false := by
    intro text point first
    have found := List.head?_dropWhile_not CodePoint.isSpace text
    rw [first] at found
    simpa using found
  apply Str.strip_eq_self_iff.mpr
  constructor
  · intro point first
    rw [Str.strip, List.head?_reverse] at first
    have suffix := List.dropWhile_suffix CodePoint.isSpace (l := (value.dropWhile CodePoint.isSpace).reverse)
    obtain ⟨front, whole⟩ := suffix
    have last : point ∈ (value.dropWhile CodePoint.isSpace).reverse.getLast? := by
      rw [← whole, List.getLast?_append]
      rw [Option.mem_def] at first ⊢
      rw [first, Option.some_or]
    rw [List.getLast?_reverse] at last
    exact cut value point last
  · intro point last
    rw [Str.strip, List.getLast?_reverse] at last
    exact cut _ point last

variable {seen names : List Str} {name : Str} {root : Path}

theorem isDataName_of_readDataFile {entry : python.Json} {file : DataFile} (read : readDataFile seen entry = .ok file) :
    IsDataName file.file := by
  rw [readDataFile.eq_def] at read
  split at read
  · next entry =>
      dsimp only at read
      split at read
      · cases read
      · next some_point =>
          split at read
          · cases read
          · next bare =>
              split at read
              · cases read
              · split at read
                · cases read
                · split at read
                  · cases read
                  · obtain ⟨inBundle, _, rfl⟩ := Execution.map_eq_ok read
                    exact ⟨strip_strip _, some_point, by simpa using bare⟩
  · cases read

theorem isDataName_of_readDataFiles {entries : List python.Json} {items : List DataFile}
    (read : readDataFiles seen entries = .ok items) : ∀ item ∈ items, IsDataName item.file := by
  induction entries generalizing seen items with
  | nil =>
    obtain rfl := Except.ok.inj read
    simp
  | cons entry rest ih =>
    obtain ⟨file, first, later⟩ := Execution.bind_eq_ok read
    obtain ⟨others, next, whole⟩ := Execution.bind_eq_ok later
    obtain rfl := Except.ok.inj whole
    intro item member
    rcases List.mem_cons.mp member with rfl | further
    · exact isDataName_of_readDataFile first
    · exact ih next item further

theorem isDataName_of_checkedNames (checked : checkedNames python files request = .ok names) :
    ∀ name ∈ names, IsDataName name := by
  obtain ⟨_, _, later⟩ := Execution.bind_eq_ok checked
  obtain ⟨_, _, travelling⟩ := Execution.bind_eq_ok later
  obtain ⟨manifest, loaded, same⟩ := Execution.bind_eq_ok travelling
  obtain rfl := Except.ok.inj same
  intro name member
  obtain ⟨item, listed, rfl⟩ := List.mem_map.mp member
  have inside := List.mem_of_mem_filter listed
  rw [loadManifest] at loaded
  split at loaded
  · cases loaded
  · split at loaded
    · cases loaded
    · split at loaded
      · exact isDataName_of_readDataFiles loaded item inside
      · cases loaded
    · cases loaded

theorem joinParts_pair (first second : Str) : joinParts [first, second] = first ++ .char '/' :: second := by
  simp [joinParts]

theorem splitParts_dataName {path : Str} (named : IsDataName name)
    (accepted : safeRelative (joinParts [dataName.val, name]) = .ok path) : splitParts path = [dataName.val, name] := by
  have bare := named.bare
  rw [isBare, Bool.and_eq_true, Bool.and_eq_true, decide_eq_true_eq, decide_eq_true_eq, decide_eq_true_eq] at bare
  obtain ⟨⟨slashless, unescaped⟩, plain⟩ := bare
  have stripped : Str.strip (joinParts [dataName.val, name]) = joinParts [dataName.val, name] := by
    rw [joinParts_pair]
    apply Str.strip_eq_self_iff.mpr
    constructor
    · intro point first
      obtain rfl : CodePoint.char 'd' = point := Option.some.inj first
      decide
    · intro point last
      apply (Str.strip_eq_self_iff.mp named.stripped).2
      rw [Option.mem_def, List.getLast?_append, List.getLast?_cons_of_ne_nil named.some_point] at last
      obtain ⟨end_, held⟩ := List.getLast?_isSome.mpr named.some_point |> Option.isSome_iff_exists.mp
      rw [held, Option.some_or] at last
      rw [Option.mem_def, held, last]
  have outside : CodePoint.char '\\' ∉ joinParts [dataName.val, name] := by
    rw [joinParts_pair, List.mem_append, List.mem_cons]
    rintro (front | slash | back)
    · exact absurd front (by decide)
    · exact absurd slash (by decide)
    · exact unescaped back
  rw [splitParts_of_safeRelative accepted, normalised_eq_self stripped outside, joinParts_pair, pureParts_append,
    pureParts_name slashless named.some_point plain]
  rfl

theorem splitParts_secret : splitParts (relativeText secretStoreRelative) = [dataName.val, secretName.val] := by
  decide

theorem asset_ne_secret {directory : Path} (listed : directory ∈ estateAssetDirs) (rest : Path) :
    safeRelative (relativeText (directory ++ rest)) ≠ .ok (relativeText secretStoreRelative) := by
  have apart : ∀ directory ∈ estateAssetDirs, ¬ pureParts (relativeText directory) <+: [dataName.val, secretName.val] := by
    decide
  have dark : ∀ directory ∈ estateAssetDirs, ∀ point ∈ (relativeText directory).head?, point.isSpace = false := by decide
  have plain : ∀ directory ∈ estateAssetDirs, CodePoint.char '\\' ∉ relativeText directory := by decide
  have some_name : ∀ directory ∈ estateAssetDirs, directory ≠ [] ∧ relativeText directory ≠ [] := by decide
  have itself : ∀ directory ∈ estateAssetDirs,
      (safeRelative (relativeText directory)).toOption ≠ some (relativeText secretStoreRelative) := by decide
  intro accepted
  cases rest with
  | nil =>
    rw [List.append_nil] at accepted
    exact itself directory listed (by rw [accepted]; rfl)
  | cons name others =>
    have text : relativeText (directory ++ name :: others) =
        relativeText directory ++ .char '/' :: relativeText (name :: others) := by
      rw [relativeText, List.map_append, joinParts_append, relativeText, relativeText]
      · exact fun nothing => (some_name directory listed).1 (List.map_eq_nil_iff.mp nothing)
      · exact List.cons_ne_nil _ _
    rw [text] at accepted
    have below := below_of_safeRelative (dark directory listed) (some_name directory listed).2 (plain directory listed)
      accepted
    rw [splitParts_secret] at below
    exact apart directory listed below

variable {source : Source}

theorem of_mem_sourceAt {location : Path} {relative : Str} {role : Role}
    (member : source ∈ (sourceAt files location relative role).1) :
    source.relative = relative ∧ source.role = role := by
  rw [sourceAt] at member
  split at member
  · obtain rfl := List.mem_singleton.mp member
    exact ⟨rfl, rfl⟩
  · cases member

theorem of_mem_dataSource {data : Path} (member : source ∈ (dataSource files data name).1) :
    source.relative = joinParts [dataName.val, name] := by
  rw [dataSource] at member
  split at member
  · exact (of_mem_sourceAt member).1
  · cases member

theorem of_mem_assetFiles (member : source ∈ assetFiles files root) :
    ∃ directory ∈ estateAssetDirs, ∃ rest, source.relative = relativeText (directory ++ rest) := by
  obtain ⟨directory, listed, inside⟩ := List.mem_flatMap.mp member
  refine ⟨directory, listed, ?_⟩
  split at inside
  · obtain ⟨⟨path, raw⟩, found, rfl⟩ := List.mem_map.mp inside
    obtain ⟨kept, _⟩ := FileTree.mem_filesWhere.mp ((Selection.mem_sortedBy _ _ _).mp found)
    rw [isAsset, Bool.and_eq_true, Bool.and_eq_true, List.isPrefixOf_iff_prefix] at kept
    obtain ⟨rest, rfl⟩ := kept.1.1
    exact ⟨rest, by rw [List.append_assoc, List.drop_left]⟩
  · cases inside

theorem of_mem_inventorySources (member : source ∈ (inventorySources files root).1) :
    ∃ relative ∈ inventorySeedRelatives, source.relative = relativeText relative := by
  rw [inventorySources] at member
  split at member
  · obtain ⟨relative, listed, rfl⟩ := List.mem_map.mp member
    exact ⟨relative, listed, rfl⟩
  · cases member

/-- Of the files a bundle carries, the secret store alone is accepted under its path. -/
theorem role_of_source (named : ∀ name ∈ names, IsDataName name ∧ name ≠ secretName.val)
    (member : source ∈ (sources files request names).1)
    (accepted : safeRelative source.relative = .ok (relativeText secretStoreRelative)) :
    source.role = .secretStore := by
  have fixed : ∀ relative ∈ [configName.val, relativeText [dataName, catalogName],
      relativeText [dataName, inventoryName], relativeText [runtimeName, reportsName, inventoryName]],
      (safeRelative relative).toOption ≠ some (relativeText secretStoreRelative) := by decide +kernel
  have elsewhere : ∀ relative, safeRelative relative = .ok (relativeText secretStoreRelative) →
      (safeRelative relative).toOption = some (relativeText secretStoreRelative) := by
    intro relative same
    rw [same]
    rfl
  simp only [sources, List.mem_append] at member
  rcases member with ((((config | catalog) | data) | secret) | asset) | inventory
  · rw [(of_mem_sourceAt config).1] at accepted
    exact absurd (elsewhere _ accepted) (fixed _ (by simp))
  · rw [(of_mem_sourceAt catalog).1] at accepted
    exact absurd (elsewhere _ accepted) (fixed _ (by simp))
  · obtain ⟨found, listed, inside⟩ := List.mem_flatMap.mp data
    obtain ⟨name, travels, rfl⟩ := List.mem_map.mp listed
    rw [of_mem_dataSource inside] at accepted
    have parts := splitParts_dataName (named name travels).1 accepted
    rw [splitParts_secret] at parts
    exact absurd (by simpa using parts.symm) (named name travels).2
  · split at secret
    · exact (of_mem_sourceAt secret).2
    · cases secret
  · split at asset
    · obtain ⟨directory, listed, rest, below⟩ := of_mem_assetFiles asset
      rw [below] at accepted
      exact absurd accepted (asset_ne_secret listed rest)
    · cases asset
  · obtain ⟨relative, listed, same⟩ := of_mem_inventorySources inventory
    rw [same] at accepted
    refine absurd (elsewhere _ accepted) (fixed _ ?_)
    rw [inventorySeedRelatives, List.mem_cons, List.mem_singleton] at listed
    rcases listed with rfl | rfl
    · simp
    · simp

theorem role_of_built {document : python.Json} {entries : List (BundleEntry python)}
    (built : buildBundle python files request = .ok document) (read : readBundle python document = .ok entries) :
    ∀ entry ∈ entries, entry.path = relativeText secretStoreRelative → entry.role = .secretStore := by
  obtain ⟨names, checked, made⟩ := Execution.bind_eq_ok built
  obtain ⟨carried, all, whole⟩ := Execution.bind_eq_ok made
  obtain rfl := Except.ok.inj whole
  have named : ∀ name ∈ names, IsDataName name ∧ name ≠ secretName.val := fun name member =>
    ⟨isDataName_of_checkedNames checked name member, names_ne_secret checked name member⟩
  obtain ⟨members, listed, same, stated, each⟩ := files_of_readBundle read
  obtain rfl := Document.object.inj same
  obtain rfl := Document.object.inj (Option.some.inj stated)
  intro entry member here
  obtain ⟨⟨path, json⟩, inside, seen, made⟩ := mem_readFiles each entry member
  rcases Dict.mem_of_mem_update inside with nothing | carriedHere
  · cases nothing
  · obtain ⟨held, among, pair⟩ := List.mem_map.mp carriedHere
    obtain ⟨rfl, rfl⟩ := Prod.mk.inj pair
    obtain ⟨accepted, role⟩ := of_readFile_toJson made
    obtain ⟨source, found, carriedFrom⟩ := Execution.exists_of_mem_mapM all among
    obtain ⟨path, sourceRole⟩ := of_readEntry carriedFrom
    rw [role, sourceRole]
    apply role_of_source named found
    rw [← path, accepted, here]

end Built

/-! ## Secrets left out -/

section Secrets

variable {python : Python}

def RolesTell (entries : List (BundleEntry python)) : Prop :=
  ∀ entry ∈ entries, entry.path = relativeText secretStoreRelative → entry.role = .secretStore

/-- An import without secrets of these entries does the same whatever the store of the root holds,
and leaves the store as it is. -/
def LeavesSecrets (entries : List (BundleEntry python)) : Prop :=
  ∀ (first second : Files) (root : Path) (includeAssets force : Bool) (faults : Str → Option Fault),
    SameBut (secretPath root) first second →
    let selected := selectEntries false includeAssets entries
    let one := applyBundle first root selected force faults
    let other := applyBundle second root selected force faults
    one.2 = other.2 ∧ SameBut (secretPath root) one.1 other.1 ∧
      FileTree.content? one.1 (secretPath root) = FileTree.content? first (secretPath root)

theorem leavesSecrets_of_rolesTell {entries : List (BundleEntry python)} (tell : RolesTell entries) :
    LeavesSecrets entries := by
  intro first second root includeAssets force faults same selected
  have apart : ∀ entry ∈ selected, entry.path ≠ relativeText secretStoreRelative := by
    intro entry member here
    obtain ⟨listed, kept⟩ := List.mem_filter.mp member
    rw [tell entry listed here] at kept
    simp at kept
  obtain ⟨result, trees⟩ := applyBundle_same same apart force faults
  exact ⟨result, trees, content?_applyBundle_secret apart force faults⟩

/-- An export without secrets does not tell what the secret store holds.  An import without them takes
nothing from the entries of the secret role, and where no entry of another role states the store's path,
it does the same whatever the store holds and leaves it; of a bundle that was built that is so. -/
theorem secrets_left_out (python : Python) :
    (∀ (first second : Files) (request : Export), request.includeSecrets = false →
      SameBut (secretPath request.root) first second →
      exportText python first request = exportText python second request) ∧
    (∀ (one other : List (BundleEntry python)) (includeAssets : Bool),
      (one.filter fun entry => entry.role ≠ .secretStore) = (other.filter fun entry => entry.role ≠ .secretStore) →
      selectEntries false includeAssets one = selectEntries false includeAssets other) ∧
    (∀ document entries, readBundle python document = .ok entries → RolesTell entries → LeavesSecrets entries) ∧
    ∀ files request document entries, buildBundle python files request = .ok document →
      readBundle python document = .ok entries → RolesTell entries := by
  refine ⟨?_, ?_, ?_, ?_⟩
  · intro first second request without same
    rw [exportText, exportText, buildBundle_eq same request rfl without]
  · intro one other includeAssets same
    have selected : ∀ entries : List (BundleEntry python), selectEntries false includeAssets entries =
        (entries.filter fun entry => entry.role ≠ .secretStore).filter fun entry =>
          !(entry.role = .estateAsset && !includeAssets) := by
      intro entries
      rw [selectEntries, List.filter_filter]
      refine List.filter_congr fun entry _ => ?_
      simp [Bool.and_comm]
    rw [selected, selected, same]
  · exact fun _ _ _ tell => leavesSecrets_of_rolesTell tell
  · exact fun _ _ _ _ built read => role_of_built built read

/-- A root whose store holds this text. -/
def rootWith (secret : String) : Files where
  entries := [([dataName], .directory), ([dataName, secretName], .file (utf8 secret))]
  nodup := show [[dataName], [dataName, secretName]].Nodup by decide

def mislabelledEntry (python : Python) : BundleEntry python where
  path := relativeText secretStoreRelative
  role := .configSource
  kind := .text
  content := .string (str "new")
  sha256 := python.sha256 (utf8 "new")
  layout := none
  verbatim := none

/-- A bundle that states the secret store's path under another role. -/
def mislabelled (python : Python) : python.Json :=
  .object [(str "bundle_format", .string (str bundleFormat)), (str "schema_version", .int schemaVersion),
    (str "files", .object [(relativeText secretStoreRelative, (mislabelledEntry python).toJson)])]

theorem readBundle_mislabelled (python : Python) :
    readBundle python (mislabelled python) = .ok [mislabelledEntry python] := by
  have accepted : safeRelative (relativeText secretStoreRelative) = .ok (relativeText secretStoreRelative) :=
    safeRelative_eq_ok.mpr (by decide +kernel)
  have rendered : (mislabelledEntry python).renderedBytes = .ok (utf8 "new") := by
    simp [BundleEntry.renderedBytes, mislabelledEntry, encode]
  have read : readMember python (relativeText secretStoreRelative) (mislabelledEntry python).members =
      .ok (mislabelledEntry python) := readMember_members rfl rfl rendered rfl
  change readFiles python [] [(relativeText secretStoreRelative, (mislabelledEntry python).toJson)] = _
  rw [readFiles, readFile, accepted]
  change ((readMember python (relativeText secretStoreRelative) (mislabelledEntry python).members).bind _) = _
  rw [read]
  rfl

theorem planned_mislabelled (python : Python) (files : Files) :
    planned files [] [mislabelledEntry python] =
      .ok [⟨relativeText secretStoreRelative,
        actionAt files (target? [] (relativeText secretStoreRelative)) (utf8 "new"), utf8 "new"⟩] := by
  have rendered : (mislabelledEntry python).renderedBytes = .ok (utf8 "new") := by
    simp [BundleEntry.renderedBytes, mislabelledEntry, encode]
  have plan : planEntry files [] (mislabelledEntry python) = .ok ⟨relativeText secretStoreRelative, .configSource,
      actionAt files (target? [] (relativeText secretStoreRelative)) (utf8 "new"), (utf8 "new").length⟩ := by
    rw [planEntry, rendered]
    rfl
  rw [planned, List.mapM_cons, rendered, plan]
  rfl

/-- An entry of another role under the store's path is found identical where the store holds its text
already, and a conflict where the store holds something else. -/
theorem secrets_not_left_out : ¬ ∃ python : Python, ∀ document entries, readBundle python document = .ok entries →
    LeavesSecrets entries := by
  rintro ⟨python, left⟩
  have trees : SameBut (secretPath []) (rootWith "new") (rootWith "old") := by
    refine ⟨fun other apart => ?_, by decide +kernel, by decide +kernel⟩
    have elsewhere : ¬ [dataName, secretName] = other := fun here => apart here.symm
    simp [rootWith, Dict.get?, List.find?_cons, elsewhere]
  have same : actionAt (rootWith "new") (target? [] (relativeText secretStoreRelative)) (utf8 "new") = .identical := by
    decide +kernel
  have other : actionAt (rootWith "old") (target? [] (relativeText secretStoreRelative)) (utf8 "new") = .overwrite := by
    decide +kernel
  obtain ⟨result, _⟩ := left _ _ (readBundle_mislabelled python) (rootWith "new") (rootWith "old") [] true false
    (fun _ => none) trees
  have kept : selectEntries false true [mislabelledEntry python] = [mislabelledEntry python] := rfl
  rw [kept, applyBundle, applyBundle, planned_mislabelled, planned_mislabelled, same, other] at result
  cases result

end Secrets

end DbaBrain.Lib.ConfigBundle
