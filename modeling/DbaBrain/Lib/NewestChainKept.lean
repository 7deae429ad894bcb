import DbaBrain.Lib.RetentionKeepsChain

/-!
# The newest chain through a prune

Both rules end with one floor: a database's newest FULL and everything after it
are kept.  The floor reads a database's name as it is spelled, and the chain
rule reads it in lower case.  So a prune by age leaves the latest chain alone
exactly when each file of it that is past its window has a FULL under its own
spelling.
-/

namespace DbaBrain.Lib.NewestChainKept

open DbaBrain.Foundation.Execution (bind_eq_ok)
open DbaBrain.Foundation DbaBrain.Foundation.Calendar DbaBrain.Foundation.Selection
open BackupFilesRetention SqlServerBackupChain RetentionKeepsChain

/-! ## Leaving out what the latest chain does not take -/

section LatestChain

variable {ι τ : Type*} [LinearOrder τ]

variable {files : List (Candidate ι τ)} {keep : Candidate ι τ → Bool}

omit [LinearOrder τ] in
theorem filter_comm {select : Candidate ι τ → Bool} :
    (files.filter keep).filter select = (files.filter select).filter keep := by
  rw [List.filter_filter, List.filter_filter]
  apply List.filter_congr
  intro c _
  rw [Bool.and_comm]

/-- A database's latest chain does not change when only files it does not take are left out. -/
theorem chainOf_latest_filter (kept : ∀ c ∈ chosenFiles none files, keep c = true) :
    chainOf none (files.filter keep) = chainOf none files := by
  have fulls : fullsOf none (files.filter keep) = (fullsOf none files).filter keep := filter_comm
  unfold chainOf
  rw [fulls]
  cases chosen : (fullsOf none files).argmax Candidate.timestamp with
  | none =>
    rw [List.argmax_eq_none.mp chosen]
    rfl
  | some full =>
    have taken : ∀ c ∈ (chainFrom none full files).files, keep c = true := by
      intro c member
      apply kept
      unfold chosenFiles chainOf
      rw [chosen]
      exact member
    have diffs : (diffsOf none full (files.filter keep)).argmax Candidate.timestamp =
        (diffsOf none full files).argmax Candidate.timestamp := by
      have parts : diffsOf none full (files.filter keep) = (diffsOf none full files).filter keep := filter_comm
      rw [parts]
      cases latest : (diffsOf none full files).argmax Candidate.timestamp with
      | none =>
        rw [List.argmax_eq_none.mp latest]
        rfl
      | some diff =>
        apply argmax_filter latest
        apply taken
        simp [Chain.files, chainFrom, latest]
    have logs : logsAfter (((diffsOf none full files).argmax Candidate.timestamp).getD full).timestamp
          (files.filter keep) =
        logsAfter (((diffsOf none full files).argmax Candidate.timestamp).getD full).timestamp files := by
      unfold logsAfter
      congr 1
      apply filter_keep_eq
      intro c member selected
      apply taken
      have among : c ∈ (chainFrom none full files).logs := (mem_sortedBy _ _ _).mpr (List.mem_filter.mpr ⟨member, selected⟩)
      exact List.mem_append_right _ among
    rw [argmax_filter chosen (taken full (by simp [Chain.files, chainFrom])), Option.map_some, Option.map_some]
    unfold chainFrom
    dsimp only
    rw [diffs, logs]

end LatestChain

section Listing

variable {lower : String → String} {files : List BackupFile} {unknown : BackupFile → ℚ}

/-- The latest chain is the same among the kept rows exactly when every row it takes is kept. -/
theorem latest_kept_iff (keep : BackupFile → Bool) :
    (restoreChain lower ((files.filter keep).map (candidateOf unknown)) none).selected =
        (restoreChain lower (files.map (candidateOf unknown)) none).selected ↔
      ∀ row ∈ (restoreChain lower (files.map (candidateOf unknown)) none).selected, keep row = true := by
  constructor
  · intro same row member
    rw [← same] at member
    obtain ⟨key, chain, found, c, taken, rfl⟩ := mem_selected.mp member
    have there := ((chainOf_spec found).2.2 c taken).1
    rw [filesOf_filter] at there
    exact (List.mem_filter.mp there).2
  · intro kept
    apply selected_congr
    · intro c member
      obtain ⟨row, inKept, rfl⟩ := List.mem_map.mp member
      exact List.mem_map.mpr ⟨row, List.mem_of_mem_filter inKept, rfl⟩
    · intro key
      rw [filesOf_filter]
      unfold chosenFiles
      rw [chainOf_latest_filter]
      intro c taken
      unfold chosenFiles at taken
      cases found : chainOf none (filesOf lower (files.map (candidateOf unknown)) key) with
      | none =>
        rw [found] at taken
        cases taken
      | some chain =>
        rw [found] at taken
        exact kept c.item (mem_selected.mpr ⟨key, chain, found, c, taken, rfl⟩)

end Listing

/-! ## The floor -/

def StatedFull (files : List BackupFile) (database : String) (full : BackupFile) : Prop :=
  full ∈ files ∧ full.kind = .full ∧ full.finishedAt ≠ none ∧ full.database = database

theorem eq_empty_of_le {text : String} (below : text ≤ "") : text = "" := by
  by_contra written
  have chars : text.toList ≠ [] := fun none => written (String.toList_eq_nil_iff.mp none)
  obtain ⟨c, rest, split⟩ := List.exists_cons_of_ne_nil chars
  have less : "" < text := by
    rw [String.lt_iff_toList_lt, split]
    exact List.Lex.nil
  exact absurd less below.not_gt

variable {row : BackupFile}

theorem finished_ne_empty_iff : row.finished ≠ "" ↔ row.finishedAt ≠ none := by
  constructor
  · intro stated absent
    exact stated (finished_of_none absent)
  · intro stated
    obtain ⟨moment, known⟩ := Option.ne_none_iff_exists'.mp stated
    rw [finished_of_some known]
    intro empty
    have length := stampText_length moment
    rw [empty] at length
    cases length

/-- The floor's stamp of a database: no FULL is newer, and it is one's, or there is none. -/
theorem newestFull_spec (rows : List Judged) (database : String) :
    (∀ judged ∈ rows, judged.row.kind = .full → judged.row.finished ≠ "" → judged.row.database = database →
        judged.row.finished ≤ newestFull rows database) ∧
      (newestFull rows database ≠ "" → ∃ judged ∈ rows, judged.row.kind = .full ∧ judged.row.database = database ∧
        judged.row.finished = newestFull rows database) := by
  induction rows using List.reverseRecOn with
  | nil =>
    constructor
    · intro judged member
      cases member
    · exact fun written => absurd rfl written
  | append_singleton rows last ih =>
    have step : newestFull (rows ++ [last]) database =
        if last.row.kind = .full ∧ last.row.finished ≠ "" ∧ last.row.database = database then
          max (newestFull rows database) last.row.finished
        else newestFull rows database := by
      unfold newestFull
      rw [List.foldl_append]
      rfl
    obtain ⟨above, attained⟩ := ih
    rw [step]
    by_cases counts : last.row.kind = .full ∧ last.row.finished ≠ "" ∧ last.row.database = database
    · rw [if_pos counts]
      constructor
      · intro judged member kind stated same
        rcases List.mem_append.mp member with earlier | this
        · exact (above judged earlier kind stated same).trans (le_max_left _ _)
        · rw [List.mem_singleton.mp this]
          exact le_max_right _ _
      · intro written
        rcases le_total (newestFull rows database) last.row.finished with lower | higher
        · rw [max_eq_right lower]
          exact ⟨last, by simp, counts.1, counts.2.2, rfl⟩
        · rw [max_eq_left higher] at written ⊢
          obtain ⟨judged, member, found⟩ := attained written
          exact ⟨judged, List.mem_append_left _ member, found⟩
    · rw [if_neg counts]
      constructor
      · intro judged member kind stated same
        rcases List.mem_append.mp member with earlier | this
        · exact above judged earlier kind stated same
        · rw [List.mem_singleton.mp this] at kind stated same
          exact absurd ⟨kind, stated, same⟩ counts
      · intro written
        obtain ⟨judged, member, found⟩ := attained written
        exact ⟨judged, List.mem_append_left _ member, found⟩

/-- Where a database has a FULL, what the floor leaves obsolete is older than one of them. -/
theorem lt_full_of_spare {files : List BackupFile} {rows : List Judged} {judged full : BackupFile}
    (same : (rows.map Judged.row).Perm files) {verdict : Judged} (row : verdict.row = judged)
    (obsolete : (spare rows verdict).verdict = .obsolete) (stated : StatedFull files judged.database full) :
    ∃ newer, StatedFull files judged.database newer ∧ judged.finished < newer.finished := by
  subst row
  obtain ⟨member, kind, known, database⟩ := stated
  obtain ⟨entry, inRows, rfl⟩ := List.mem_map.mp (same.mem_iff.mpr member)
  obtain ⟨above, attained⟩ := newestFull_spec rows verdict.row.database
  have written := finished_ne_empty_iff.mpr known
  have anchored : newestFull rows verdict.row.database ≠ "" := by
    intro empty
    have below := above entry inRows kind written database
    rw [empty] at below
    exact written (eq_empty_of_le below)
  obtain ⟨newest, newestIn, newestKind, newestDatabase, finish⟩ := attained anchored
  refine ⟨newest.row, ⟨same.mem_iff.mp (List.mem_map_of_mem newestIn), newestKind, ?_, newestDatabase⟩, ?_⟩
  · rw [← finished_ne_empty_iff, finish]
    exact anchored
  · rw [finish]
    by_contra after
    have floor : verdict.verdict = .obsolete ∧ newestFull rows verdict.row.database ≠ "" ∧
        newestFull rows verdict.row.database ≤ verdict.row.finished :=
      ⟨spare_obsolete obsolete, anchored, not_lt.mp after⟩
    unfold spare at obsolete
    dsimp only at obsolete
    rw [if_pos floor] at obsolete
    cases obsolete

/-! ## What a plan says of every row -/

def pastWindow (cutoff : String) (levelCutoffs : LevelCutoffs) (row : BackupFile) : Bool :=
  match levelCutoffs.lookup row.kind with
  | some none => false
  | named => row.finished ≠ "" && row.finished < (named.getD none).getD cutoff

def PastWindow (files : List BackupFile) (retentionDays : Int) (now : Moment) (retentionSeconds : Option Int)
    (windows : Windows) (row : BackupFile) : Prop :=
  ∃ span window cutoff levelCutoffs, windowOf retentionDays (retentionSeconds.getD 0) = .ok (span, window) ∧
    cutoffOf files now span = .ok cutoff ∧ levelCutoffsOf files now windows = .ok levelCutoffs ∧
    pastWindow cutoff levelCutoffs row = true

theorem judgeByAge_row (cutoff days : String) (levelCutoffs : LevelCutoffs) (row : BackupFile) :
    (judgeByAge cutoff days levelCutoffs row).row = row := by
  unfold judgeByAge
  dsimp only
  split
  · rfl
  · split
    · rfl
    · split <;> rfl

variable {cutoff : String} {levelCutoffs : LevelCutoffs}

theorem judgeByAge_obsolete_iff {days : String} :
    (judgeByAge cutoff days levelCutoffs row).verdict = .obsolete ↔ pastWindow cutoff levelCutoffs row = true := by
  unfold judgeByAge pastWindow
  cases levelCutoffs.lookup row.kind with
  | none =>
    by_cases stated : row.finished = ""
    · simp [stated]
    · by_cases older : row.finished < cutoff <;> simp [stated, older]
  | some named =>
    cases named with
    | none => simp
    | some own =>
      by_cases stated : row.finished = ""
      · simp [stated]
      · by_cases older : row.finished < own <;> simp [stated, older]

theorem stated_of_pastWindow (past : pastWindow cutoff levelCutoffs row = true) : row.finishedAt ≠ none := by
  rw [← finished_ne_empty_iff]
  intro unstated
  unfold pastWindow at past
  rw [unstated] at past
  split at past
  · cases past
  · simp at past

/-- One judgement a row, over the rows in some order; the two lists of a plan are its halves. -/
structure Judgement (files : List BackupFile) (plan : Plan) where
  listing : List BackupFile
  judge : BackupFile → Judged
  same : listing.Perm files
  row : ∀ row, (judge row).row = row
  keep : plan.keep = (listing.map judge).filter fun judged => judged.verdict = .keep
  obsolete : plan.obsolete = (listing.map judge).filter fun judged => judged.verdict = .obsolete
  older : ∀ row ∈ files, (judge row).verdict = .obsolete → row.finishedAt ≠ none ∧
    ∀ full, StatedFull files row.database full →
      ∃ newer, StatedFull files row.database newer ∧ row.finished < newer.finished

theorem regrouped_perm (files : List BackupFile) : (regrouped files).Perm files := by
  rw [List.perm_iff_count]
  intro row
  have group := congrArg (List.count row) (regrouped_filter files row.database)
  rw [List.count_filter (by simp), List.count_filter (by simp)] at group
  exact group

theorem map_row_eq {listing : List BackupFile} {judge : BackupFile → Judged} (row : ∀ row, (judge row).row = row) :
    (listing.map judge).map Judged.row = listing := by
  rw [List.map_map]
  conv_rhs => rw [← List.map_id listing]
  exact List.map_congr_left fun each _ => row each

section Planned

variable {files : List BackupFile} {retentionDays : Int} {mode : String} {now : Moment} {retentionSeconds : Option Int}
  {windows : Windows} {plan : Plan}

theorem judgement_of_age (planned : planRetention files retentionDays mode now retentionSeconds windows = .ok plan)
    (rule : parseMode mode = .ok .age) : ∃ judgement : Judgement files plan,
      ∀ row ∈ files, (∀ full, ¬StatedFull files row.database full) →
        ((judgement.judge row).verdict = .obsolete ↔
          PastWindow files retentionDays now retentionSeconds windows row) := by
  obtain ⟨⟨span, window⟩, spanned, planned⟩ := bind_eq_ok planned
  obtain ⟨parsed, parse, planned⟩ := bind_eq_ok planned
  obtain ⟨uniform, dated, planned⟩ := bind_eq_ok planned
  obtain ⟨levelCutoffs, levels, planned⟩ := bind_eq_ok planned
  rw [rule] at parse
  cases parse
  cases planned
  have judged : keepNewestChain (byAge files uniform window levelCutoffs) = files.map fun row =>
      spare (byAge files uniform window levelCutoffs) (judgeByAge uniform window levelCutoffs row) := List.map_map
  have rows : (byAge files uniform window levelCutoffs).map Judged.row = files :=
    map_row_eq (judgeByAge_row uniform window levelCutoffs)
  refine ⟨⟨files, fun row => spare (byAge files uniform window levelCutoffs)
    (judgeByAge uniform window levelCutoffs row), List.Perm.refl _, ?_, ?_, ?_, ?_⟩, ?_⟩
  · intro row
    rw [spare_row, judgeByAge_row]
  · exact congrArg (List.filter fun judged => judged.verdict = .keep) judged
  · exact congrArg (List.filter fun judged => judged.verdict = .obsolete) judged
  · intro row _ obsolete
    have past := judgeByAge_obsolete_iff.mp (spare_obsolete obsolete)
    refine ⟨stated_of_pastWindow past, fun full stated => ?_⟩
    exact lt_full_of_spare (List.Perm.of_eq rows) (judgeByAge_row _ _ _ _) obsolete stated
  · intro row member without
    have floorless : newestFull (byAge files uniform window levelCutoffs) row.database = "" := by
      by_contra written
      obtain ⟨entry, inRows, kind, database, finish⟩ :=
        (newestFull_spec (byAge files uniform window levelCutoffs) row.database).2 written
      have known := finished_ne_empty_iff.mp (finish ▸ written)
      exact without entry.row ⟨rows ▸ List.mem_map_of_mem inRows, kind, known, database⟩
    have unspared : spare (byAge files uniform window levelCutoffs) (judgeByAge uniform window levelCutoffs row) =
        judgeByAge uniform window levelCutoffs row := by
      unfold spare
      dsimp only
      rw [judgeByAge_row, floorless, if_neg fun floor => floor.2.1 rfl]
    dsimp only
    rw [unspared, judgeByAge_obsolete_iff]
    constructor
    · exact fun past => ⟨span, window, uniform, levelCutoffs, spanned, dated, levels, past⟩
    · rintro ⟨span', window', uniform', levelCutoffs', spanned', dated', levels', past⟩
      rw [spanned] at spanned'
      cases spanned'
      rw [dated] at dated'
      cases dated'
      rw [levels] at levels'
      cases levels'
      exact past

/-- A recovery window drops nothing of a database without a FULL. -/
theorem judgement_of_recoveryWindow
    (planned : planRetention files retentionDays mode now retentionSeconds windows = .ok plan)
    (rule : parseMode mode = .ok .recoveryWindow) : ∃ judgement : Judgement files plan,
      ∀ row ∈ files, (∀ full, ¬StatedFull files row.database full) → (judgement.judge row).verdict ≠ .obsolete := by
  have halves : plan.keep = (keepNewestChain (byRecoveryWindow files plan.cutoff plan.window)).filter
        (fun judged => judged.verdict = .keep) ∧
      plan.obsolete = (keepNewestChain (byRecoveryWindow files plan.cutoff plan.window)).filter
        fun judged => judged.verdict = .obsolete := by
    obtain ⟨⟨span, window⟩, -, planned⟩ := bind_eq_ok planned
    obtain ⟨parsed, parse, planned⟩ := bind_eq_ok planned
    obtain ⟨uniform, -, planned⟩ := bind_eq_ok planned
    obtain ⟨levelCutoffs, -, planned⟩ := bind_eq_ok planned
    rw [rule] at parse
    cases parse
    cases planned
    exact ⟨rfl, rfl⟩
  rw [byRecoveryWindow_eq] at halves
  have older : ∀ row, (windowVerdict files plan.cutoff plan.window row).verdict = .obsolete → row.finishedAt ≠ none ∧
      ∃ newer, StatedFull files row.database newer ∧ row.finished < newer.finished := by
    intro row obsolete
    have dropped : keeps files plan.cutoff plan.window row = false := by
      unfold keeps
      rw [obsolete]
      rfl
    obtain ⟨full, member, kind, written, -, database, stated, older⟩ := older_than_full dropped
    exact ⟨finished_ne_empty_iff.mp stated, full, ⟨member, kind, finished_ne_empty_iff.mp written, database⟩, older⟩
  refine ⟨⟨regrouped files, windowVerdict files plan.cutoff plan.window, regrouped_perm files, ?_, halves.1, halves.2, ?_⟩, ?_⟩
  · intro row
    rw [windowVerdict, spare_row, judgeByWindow_row]
  · exact fun row _ obsolete => ⟨(older row obsolete).1, fun _ _ => (older row obsolete).2⟩
  · intro row _ without obsolete
    obtain ⟨-, newer, stated, -⟩ := older row obsolete
    exact without newer stated

end Planned

/-! ## The newest chain is never pruned -/

/-- The rows a plan keeps, each exactly once and in one verdict, and what it never marks obsolete. -/
structure KeepsNewestChain (lower : String → String) (unknown : BackupFile → ℚ) (files : List BackupFile)
    (plan : Plan) : Prop where
  partition : ((plan.keep ++ plan.obsolete).map Judged.row).Perm files
  verdicts : (∀ judged ∈ plan.keep, judged.verdict = .keep) ∧ ∀ judged ∈ plan.obsolete, judged.verdict = .obsolete
  dated : ∀ judged ∈ plan.obsolete, judged.row.finishedAt ≠ none
  newest : ∀ judged ∈ plan.obsolete, ∀ full, StatedFull files judged.row.database full →
    (∀ other, StatedFull files judged.row.database other → other.finished ≤ full.finished) →
    judged.row.finished < full.finished
  latest : (restoreChain lower ((files.filter fun row => row ∈ plan.keptFiles).map (candidateOf unknown)) none).selected =
    (restoreChain lower (files.map (candidateOf unknown)) none).selected

section Kept

variable {files : List BackupFile} {plan : Plan}

theorem Judgement.partition (judgement : Judgement files plan) :
    ((plan.keep ++ plan.obsolete).map Judged.row).Perm files := by
  have halves : (plan.keep ++ plan.obsolete).Perm (judgement.listing.map judgement.judge) := by
    rw [judgement.keep, judgement.obsolete]
    have others : (fun judged : Judged => decide (judged.verdict = .obsolete)) =
        fun judged => !decide (judged.verdict = .keep) := by
      funext judged
      cases judged.verdict <;> rfl
    rw [others]
    exact List.filter_append_perm _ _
  have rows := halves.map Judged.row
  rw [map_row_eq judgement.row] at rows
  exact rows.trans judgement.same

theorem Judgement.mem_obsolete (judgement : Judgement files plan) {judged : Judged} (member : judged ∈ plan.obsolete) :
    judged.row ∈ files ∧ (judgement.judge judged.row).verdict = .obsolete := by
  rw [judgement.obsolete, List.mem_filter] at member
  obtain ⟨row, inListing, rfl⟩ := List.mem_map.mp member.1
  rw [judgement.row]
  exact ⟨judgement.same.mem_iff.mp inListing, of_decide_eq_true member.2⟩

variable {row : BackupFile} {unknown : BackupFile → ℚ}

theorem Judgement.mem_keptFiles (judgement : Judgement files plan) (member : row ∈ files) :
    row ∈ plan.keptFiles ↔ (judgement.judge row).verdict ≠ .obsolete := by
  unfold Plan.keptFiles
  rw [judgement.keep]
  constructor
  · intro kept obsolete
    obtain ⟨judged, among, rfl⟩ := List.mem_map.mp kept
    obtain ⟨inRows, verdict⟩ := List.mem_filter.mp among
    obtain ⟨other, -, rfl⟩ := List.mem_map.mp inRows
    rw [judgement.row] at obsolete
    rw [of_decide_eq_true verdict] at obsolete
    cases obsolete
  · intro spared
    have kept : (judgement.judge row).verdict = .keep := by
      cases verdict : (judgement.judge row).verdict with
      | keep => rfl
      | obsolete => exact absurd verdict spared
    refine List.mem_map.mpr ⟨judgement.judge row, List.mem_filter.mpr ⟨?_, decide_eq_true kept⟩, judgement.row row⟩
    exact List.mem_map_of_mem (judgement.same.mem_iff.mpr member)

theorem timestamp_lt_of_finished {first second : BackupFile} (stated : first.finishedAt ≠ none)
    (known : second.finishedAt ≠ none) (before : first.finished < second.finished) :
    (candidateOf unknown first).timestamp < (candidateOf unknown second).timestamp := by
  obtain ⟨earlier, atFirst⟩ := Option.ne_none_iff_exists'.mp stated
  obtain ⟨later, atSecond⟩ := Option.ne_none_iff_exists'.mp known
  rw [finished_of_some atFirst, finished_of_some atSecond] at before
  have times : earlier.epoch < later.epoch := by
    rw [← not_le, Moment.epoch_le_iff, not_le]
    exact stampText_strictMono.lt_iff_lt.mp before
  simpa [candidateOf, atFirst, atSecond] using times

variable {lower : String → String}

/-- A row the latest chain takes is obsolete only where its database, as spelled, has no FULL. -/
theorem Judgement.fullless_of_selected (judgement : Judgement files plan)
    (selected : row ∈ (restoreChain lower (files.map (candidateOf unknown)) none).selected)
    (obsolete : (judgement.judge row).verdict = .obsolete) (full : BackupFile) :
    ¬StatedFull files row.database full := by
  intro stated
  obtain ⟨key, chain, found, c, taken, rfl⟩ := mem_selected.mp selected
  obtain ⟨-, newest, bounds⟩ := chainOf_spec found
  obtain ⟨among, after⟩ := bounds c taken
  unfold filesOf at among
  obtain ⟨inCandidates, name⟩ := List.mem_filter.mp among
  obtain ⟨row, inFiles, rfl⟩ := List.mem_map.mp inCandidates
  obtain ⟨dated, newer⟩ := judgement.older row inFiles obsolete
  obtain ⟨newer, ⟨inFiles', kind, known, database⟩, later⟩ := newer full stated
  have inGroup : candidateOf unknown newer ∈ filesOf lower (files.map (candidateOf unknown)) key := by
    refine List.mem_filter.mpr ⟨List.mem_map_of_mem inFiles', ?_⟩
    rw [← of_decide_eq_true name]
    exact decide_eq_true (congrArg lower database)
  have below := newest (candidateOf unknown newer) inGroup (congrArg some kind) rfl
  exact absurd (after.trans_lt (timestamp_lt_of_finished dated known later)) below.not_gt

theorem mem_of_selected (selected : row ∈ (restoreChain lower (files.map (candidateOf unknown)) none).selected) :
    row ∈ files := by
  obtain ⟨key, chain, found, c, taken, rfl⟩ := mem_selected.mp selected
  have there := (List.mem_filter.mp ((chainOf_spec found).2.2 c taken).1).1
  obtain ⟨row, member, rfl⟩ := List.mem_map.mp there
  exact member

theorem Judgement.keepsNewestChain_iff (judgement : Judgement files plan) (lower : String → String)
    (unknown : BackupFile → ℚ) : KeepsNewestChain lower unknown files plan ↔
      ∀ row ∈ (restoreChain lower (files.map (candidateOf unknown)) none).selected,
        (judgement.judge row).verdict ≠ .obsolete := by
  have latest := @latest_kept_iff lower files unknown fun row => decide (row ∈ plan.keptFiles)
  simp only [decide_eq_true_eq] at latest
  constructor
  · intro kept row selected
    exact (judgement.mem_keptFiles (mem_of_selected selected)).mp (latest.mp kept.latest row selected)
  · intro kept
    refine ⟨judgement.partition, ⟨?_, ?_⟩, ?_, ?_, ?_⟩
    · intro judged member
      rw [judgement.keep] at member
      exact of_decide_eq_true (List.mem_filter.mp member).2
    · intro judged member
      rw [judgement.obsolete] at member
      exact of_decide_eq_true (List.mem_filter.mp member).2
    · intro judged member
      obtain ⟨there, obsolete⟩ := judgement.mem_obsolete member
      exact (judgement.older _ there obsolete).1
    · intro judged member full stated newest
      obtain ⟨there, obsolete⟩ := judgement.mem_obsolete member
      obtain ⟨newer, known, later⟩ := (judgement.older _ there obsolete).2 full stated
      exact later.trans_le (newest newer known)
    · refine latest.mpr fun row selected => ?_
      exact (judgement.mem_keptFiles (mem_of_selected selected)).mpr (kept row selected)

end Kept

/--
A prune leaves the newest chain alone exactly when, by age, every row the
latest restore takes that is past its window has a FULL under its database's
own spelling.
-/
theorem newest_chain_kept_iff (lower : String → String) (unknown : BackupFile → ℚ) {files : List BackupFile}
    {retentionDays : Int} {mode : String} {now : Moment} {retentionSeconds : Option Int} {windows : Windows}
    {plan : Plan} (planned : planRetention files retentionDays mode now retentionSeconds windows = .ok plan) :
    KeepsNewestChain lower unknown files plan ↔
      (parseMode mode = .ok .age →
        ∀ row ∈ (restoreChain lower (files.map (candidateOf unknown)) none).selected,
          PastWindow files retentionDays now retentionSeconds windows row →
            ∃ full, StatedFull files row.database full) := by
  have parsed : parseMode mode = .ok .age ∨ parseMode mode = .ok .recoveryWindow := by
    obtain ⟨⟨span, window⟩, -, planned⟩ := bind_eq_ok planned
    obtain ⟨parsed, parse, -⟩ := bind_eq_ok planned
    cases parsed with
    | age => exact Or.inl parse
    | recoveryWindow => exact Or.inr parse
  rcases parsed with rule | rule
  · obtain ⟨judgement, obsolete_iff⟩ := judgement_of_age planned rule
    rw [judgement.keepsNewestChain_iff]
    constructor
    · intro kept _ row selected past
      by_contra fullless
      have without := not_exists.mp fullless
      exact kept row selected ((obsolete_iff row (mem_of_selected selected) without).mpr past)
    · intro covered row selected obsolete
      have without := judgement.fullless_of_selected selected obsolete
      have past := (obsolete_iff row (mem_of_selected selected) without).mp obsolete
      obtain ⟨full, stated⟩ := covered rule row selected past
      exact without full stated
  · obtain ⟨judgement, spared⟩ := judgement_of_recoveryWindow planned rule
    rw [judgement.keepsNewestChain_iff]
    constructor
    · intro _ age
      rw [rule] at age
      cases age
    · intro _ row selected obsolete
      have without := judgement.fullless_of_selected selected obsolete
      exact spared row (mem_of_selected selected) without obsolete

/-! ## A database whose name is spelled two ways -/

def spelledFull : BackupFile :=
  ⟨"/backup/Sales/FULL/Sales_FULL.bak", .full, some "Sales", some 1, some 63913000000, none⟩

def spelledLog : BackupFile :=
  ⟨"/backup/Sales/LOG/sales_LOG.trn", .log, some "sales", some 1, some 63913003600, none⟩

/-- The log after the newest FULL is pruned, and the latest restore loses it. -/
theorem log_of_other_spelling_is_pruned :
    ∃ plan, planRetention [spelledFull, spelledLog] 1 "age" 63914000000 none [] = .ok plan ∧
      plan.obsolete.map Judged.row = [spelledLog] ∧
      ¬KeepsNewestChain Text.asciiLower (fun _ => 0) [spelledFull, spelledLog] plan := by
  refine ⟨_, rfl, by decide +kernel, fun kept => absurd kept.latest ?_⟩
  decide +kernel

/-- Of one spelling the log stays with its FULL, and an older FULL is pruned. -/
theorem newest_chain_kept_one_spelling :
    let older := { spelledFull with path := "/backup/Sales/FULL/Sales_FULL_1.bak", finishedAt := some 63912000000 }
    let log := { spelledLog with databaseName := some "Sales" }
    ∃ plan, planRetention [older, spelledFull, log] 1 "age" 63914000000 none [] = .ok plan ∧
      plan.obsolete.map Judged.row = [older] ∧
      KeepsNewestChain Text.asciiLower (fun _ => 0) [older, spelledFull, log] plan := by
  intro older log
  have planned : ∃ plan, planRetention [older, spelledFull, log] 1 "age" 63914000000 none [] = .ok plan ∧
      plan.obsolete.map Judged.row = [older] := ⟨_, rfl, by decide +kernel⟩
  obtain ⟨plan, planned, obsolete⟩ := planned
  refine ⟨plan, planned, obsolete, (newest_chain_kept_iff _ _ planned).mpr fun _ row selected _ => ?_⟩
  refine ⟨spelledFull, by decide, rfl, by decide, ?_⟩
  have spelled : ∀ row ∈ [older, spelledFull, log], row.database = "Sales" := by decide
  exact (spelled row (mem_of_selected selected)).symm

end DbaBrain.Lib.NewestChainKept
