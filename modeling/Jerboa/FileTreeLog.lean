import Jerboa.FileTreeRuns

/-!
# Failed calls and the log

`filesystem_link`, `filesystem_rename` and `filesystem_exchange` write two
records to the log before they change the tuples.  When the second record is
refused, or the new log of a rebuild refuses a record that the log has accepted,
the call returns an error, but the log keeps what it has accepted.
-/

namespace Jerboa.Kernel

open Utf8Text Function

/-- What a record sets: an entry of a directory, or the count of a file. -/
def LogRecord.place : LogRecord → (Nat × Bytes) ⊕ Nat
  | .entry t name _ => .inl (t, name)
  | .nlink t _ => .inr t

/-- The record says what is so already. -/
def LogImage.Has (image : LogImage) : LogRecord → Prop
  | .entry t name child => image.entries t name = child
  | .nlink t count => image.counts t = count

namespace LogImage

variable {image : LogImage} {first second record : LogRecord}

theorem replay_of_has (has : image.Has record) : image.replay record = image := by
  cases record with
  | entry t name child =>
    have same : update (image.entries t) name child = image.entries t :=
      update_eq_self_iff.mpr (Eq.symm has)
    rw [replay, same, update_eq_self]
  | nlink t count => rw [replay, update_eq_self_iff.mpr (Eq.symm has)]

theorem has_replay (image : LogImage) (record : LogRecord) : (image.replay record).Has record := by
  cases record <;> simp [replay, Has]

theorem has_replay_of_ne (apart : first.place ≠ second.place) :
    (image.replay second).Has first ↔ image.Has first := by
  cases first <;> cases second <;> simp_all [replay, Has, LogRecord.place, update_apply]
  rename_i t name _ u other _
  by_cases same : t = u
  · simp [same, apart same]
  · simp [same]

theorem replay_replay_of_eq (same : first.place = second.place) :
    (image.replay first).replay second = image.replay second := by
  cases first <;> cases second <;> simp_all [replay, LogRecord.place]

theorem replay_eq_iff : image.replay record = image ↔ image.Has record := by
  refine ⟨fun same => ?_, replay_of_has⟩
  rw [← same]
  exact has_replay ..

theorem replay_replay_eq_iff : (image.replay first).replay second = image ↔
    image.Has second ∧ (first.place ≠ second.place → image.Has first) := by
  constructor
  · intro same
    constructor
    · rw [← same]
      exact has_replay ..
    · intro apart
      rw [← same, has_replay_of_ne apart]
      exact has_replay ..
  · rintro ⟨hasSecond, hasFirst⟩
    by_cases same : first.place = second.place
    · rw [replay_replay_of_eq same, replay_of_has hasSecond]
    · rw [replay_of_has (hasFirst same), replay_of_has hasSecond]

end LogImage

namespace Tfs

/-- The log, and the new one during a rebuild, replay to an image. -/
structure LogsAre (fs : Tfs) (image : LogImage) : Prop where
  log : fs.log = image
  tempLog : ∀ other, fs.tempLog = some other → other = image

def hasTemp (fs : Tfs) (answer : LogAnswer) : Bool :=
  fs.tempLog.isSome || answer.rebuild

def taken (answer : LogAnswer) (hasTemp : Bool) : Bool :=
  answer.accepted && (!hasTemp || answer.tempAccepted)

def firstTaken (fs : Tfs) (answers : Nat → LogAnswer) : Bool :=
  taken (answers 0) (fs.hasTemp (answers 0))

def bothTaken (fs : Tfs) (answers : Nat → LogAnswer) : Bool :=
  fs.firstTaken answers &&
    taken (answers 1) (fs.hasTemp (answers 0) || (answers 1).rebuild)

/-- When a write is refused, what a log has accepted before says nothing new: the
first record if it is the last that some log has, and otherwise both. -/
structure Harmless (fs : Tfs) (answers : Nat → LogAnswer) (image : LogImage)
    (first second : LogRecord) : Prop where
  one : (answers 0).accepted = true →
    (fs.firstTaken answers = false ∨ (answers 1).accepted = false ∨
      fs.hasTemp (answers 0) = true) → image.Has first
  both : fs.firstTaken answers = true → (answers 1).accepted = true →
    image.Has second ∧ (first.place ≠ second.place → image.Has first)

variable {fs : Tfs} {answers : Nat → LogAnswer} {answer : LogAnswer}
  {record first second : LogRecord} {image : LogImage}

/-! ### One write -/

theorem isSome_tempAfter (fs : Tfs) (answer : LogAnswer) :
    (fs.tempAfter answer).isSome = fs.hasTemp answer := by
  rw [tempAfter, hasTemp]
  cases fs.tempLog with
  | some image => rfl
  | none =>
    simp only [Option.isSome_none, Bool.false_or]
    cases answer.rebuild <;> rfl

theorem writeEav_refused (refused : answer.accepted = false) :
    fs.writeEav answer record = (fs, false) := by
  rw [writeEav, if_neg (by simp [refused])]

theorem writeEav_accepted (accepted : answer.accepted = true) :
    fs.writeEav answer record =
      ({ fs with
          log := fs.log.replay record
          tempLog := (fs.tempAfter answer).map fun image =>
            if answer.tempAccepted then image.replay record else image },
        taken answer (fs.hasTemp answer)) := by
  simp only [writeEav, taken, accepted, Bool.true_and, ← isSome_tempAfter]
  cases isTemp : fs.tempAfter answer with
  | none =>
    have noTemp : fs.tempLog = none := by
      rw [tempAfter] at isTemp
      split at isTemp
      · cases isTemp
      · rename_i none
        exact none
    rw [← noTemp]
    simp [noTemp]
  | some image =>
    simp only [Option.map_some, Option.isSome_some, Bool.not_true, Bool.false_or]
    cases answer.tempAccepted <;> rfl

theorem writeEav_ok (fs : Tfs) (answer : LogAnswer) (record : LogRecord) :
    (fs.writeEav answer record).2 = taken answer (fs.hasTemp answer) := by
  cases accepted : answer.accepted with
  | false => rw [writeEav_refused accepted, taken, accepted, Bool.false_and]
  | true => rw [writeEav_accepted accepted]

theorem tempAfter_image (logs : fs.LogsAre image)
    (snapshot : fs.tempLog = none → answer.rebuild = true → fs.tree.image = image)
    {other : LogImage} (temp : fs.tempAfter answer = some other) : other = image := by
  rw [tempAfter] at temp
  split at temp
  · rename_i old isOld
    cases temp
    exact logs.tempLog other isOld
  · rename_i noTemp
    split at temp
    · rename_i rebuild
      cases temp
      exact snapshot noTemp rebuild
    · cases temp

/-! ### Two writes -/

theorem writeBoth_of_not_firstTaken (notTaken : fs.firstTaken answers = false) :
    fs.writeBoth answers first second = fs.writeEav (answers 0) first := by
  rw [writeBoth, writeEav_ok]
  exact if_neg (by rw [← firstTaken, notTaken]; simp)

theorem writeBoth_of_firstTaken (isTaken : fs.firstTaken answers = true) :
    fs.writeBoth answers first second =
      (fs.writeEav (answers 0) first).1.writeEav (answers 1) second := by
  rw [writeBoth, writeEav_ok]
  exact if_pos isTaken

theorem accepted_of_taken {hasTemp : Bool} (isTaken : taken answer hasTemp = true) :
    answer.accepted = true ∧ (hasTemp = true → answer.tempAccepted = true) := by
  rw [taken, Bool.and_eq_true, Bool.or_eq_true, Bool.not_eq_true'] at isTaken
  refine ⟨isTaken.1, ?_⟩
  intro temp
  exact isTaken.2.resolve_left (by simp [temp])

theorem tempAccepted_of_not_taken {hasTemp : Bool} (accepted : answer.accepted = true)
    (notTaken : taken answer hasTemp = false) :
    hasTemp = true ∧ answer.tempAccepted = false := by
  simpa [taken, accepted] using notTaken

theorem writeEav_stopped_logs (accepted : answer.accepted = true)
    (refused : answer.tempAccepted = false) :
    (fs.writeEav answer record).1.LogsAre image ↔
      fs.log.replay record = image ∧
        ∀ other, fs.tempAfter answer = some other → other = image := by
  rw [writeEav_accepted accepted]
  simp only [refused, Bool.false_eq_true, if_false, Option.map_id']
  constructor
  · intro after
    exact ⟨after.log, after.tempLog⟩
  · intro both
    exact ⟨both.1, both.2⟩

theorem writeEav_taken_logs (logs : fs.LogsAre image)
    (snapshot : fs.tempLog = none → answer.rebuild = true → fs.tree.image = image)
    (isTaken : taken answer (fs.hasTemp answer) = true) :
    (fs.writeEav answer record).1.LogsAre (image.replay record) ∧
      ((fs.writeEav answer record).1.tempLog.isSome = fs.hasTemp answer) := by
  obtain ⟨accepted, tempAccepted⟩ := accepted_of_taken isTaken
  rw [writeEav_accepted accepted]
  refine ⟨⟨?_, ?_⟩, ?_⟩
  · exact congrArg (LogImage.replay · record) logs.log
  · intro other temp
    obtain ⟨old, isOld, replayed⟩ := Option.map_eq_some_iff.mp temp
    have hasTemp : fs.hasTemp answer = true := by
      rw [← isSome_tempAfter, isOld, Option.isSome_some]
    rw [if_pos (tempAccepted hasTemp), tempAfter_image logs snapshot isOld] at replayed
    exact replayed.symm
  · simp only [Option.isSome_map, isSome_tempAfter]

theorem LogsAre.iff_eq {other : LogImage} (logs : fs.LogsAre other) :
    fs.LogsAre image ↔ other = image := by
  constructor
  · intro same
    exact logs.log.symm.trans same.log
  · intro same
    exact same ▸ logs

theorem writeBoth_logs (logs : fs.LogsAre image)
    (snapshot : (answers 0).accepted = true → fs.tempLog = none → (answers 0).rebuild = true →
      fs.tree.image = image)
    (secondSnapshot : (image.replay first).replay second = image → fs.tree.image = image)
    (failed : (fs.writeBoth answers first second).2 = false) :
    (fs.writeBoth answers first second).1.LogsAre image ↔
      fs.Harmless answers image first second := by
  cases isTaken : fs.firstTaken answers with
  | false =>
    have vacuous : ∀ {claim : Prop}, fs.firstTaken answers = true → claim := by
      intro claim contradiction
      cases isTaken.symm.trans contradiction
    rw [writeBoth_of_not_firstTaken isTaken]
    cases accepted : (answers 0).accepted with
    | false =>
      rw [writeEav_refused accepted]
      constructor
      · intro _
        refine ⟨?_, vacuous⟩
        intro contradiction
        cases accepted.symm.trans contradiction
      · intro _
        exact logs
    | true =>
      obtain ⟨-, refused⟩ := tempAccepted_of_not_taken accepted isTaken
      rw [writeEav_stopped_logs accepted refused, logs.log]
      constructor
      · intro same
        exact ⟨fun _ _ => LogImage.replay_eq_iff.mp same.1, vacuous⟩
      · intro harmless
        refine ⟨LogImage.replay_of_has (harmless.one accepted (.inl isTaken)), ?_⟩
        intro other temp
        exact tempAfter_image logs (snapshot accepted) temp
  | true =>
    have accepted := (accepted_of_taken isTaken).1
    obtain ⟨written, hasTemp⟩ := @writeEav_taken_logs fs (answers 0) first image logs
      (snapshot accepted) isTaken
    rw [writeBoth_of_firstTaken isTaken] at failed ⊢
    cases secondAccepted : (answers 1).accepted with
    | false =>
      rw [writeEav_refused secondAccepted, written.iff_eq]
      constructor
      · intro same
        refine ⟨fun _ _ => LogImage.replay_eq_iff.mp same, ?_⟩
        intro _ contradiction
        cases secondAccepted.symm.trans contradiction
      · intro harmless
        exact LogImage.replay_of_has (harmless.one accepted (.inr (.inl secondAccepted)))
    | true =>
      rw [writeEav_ok] at failed
      obtain ⟨-, refused⟩ := tempAccepted_of_not_taken secondAccepted failed
      rw [writeEav_stopped_logs secondAccepted refused, written.log]
      constructor
      · intro after
        refine ⟨?_, fun _ _ => LogImage.replay_replay_eq_iff.mp after.1⟩
        intro _ stopped
        -- both writes came to the log, so the new log was there at the first
        obtain contradiction | contradiction | temp := stopped
        · cases isTaken.symm.trans contradiction
        · cases secondAccepted.symm.trans contradiction
        · obtain ⟨other, isOther⟩ := Option.isSome_iff_exists.mp (hasTemp.trans temp)
          rw [← LogImage.replay_eq_iff, ← written.tempLog other isOther]
          apply after.2 other
          rw [tempAfter, isOther]
      · intro harmless
        have both := LogImage.replay_replay_eq_iff.mpr (harmless.both isTaken secondAccepted)
        refine ⟨both, ?_⟩
        intro other temp
        rw [tempAfter] at temp
        split at temp
        · rename_i old isOld
          cases temp
          have first := harmless.one accepted
            (.inr (.inr (hasTemp.symm.trans (by rw [isOld, Option.isSome_some]))))
          exact (written.tempLog other isOld).trans (LogImage.replay_of_has first)
        · split at temp
          · cases temp
            rw [writeEav_tree]
            exact secondSnapshot both
          · cases temp

theorem writeBoth_ok (fs : Tfs) (answers : Nat → LogAnswer) (first second : LogRecord) :
    (fs.writeBoth answers first second).2 = fs.bothTaken answers := by
  rw [bothTaken]
  cases isTaken : fs.firstTaken answers with
  | false =>
    rw [writeBoth_of_not_firstTaken isTaken, writeEav_ok, Bool.false_and]
    exact isTaken
  | true =>
    have accepted := (accepted_of_taken isTaken).1
    have hasTemp : (fs.writeEav (answers 0) first).1.tempLog.isSome =
        fs.hasTemp (answers 0) := by
      rw [writeEav_accepted accepted]
      simp only [Option.isSome_map, isSome_tempAfter]
    rw [writeBoth_of_firstTaken isTaken, writeEav_ok, Bool.true_and, Tfs.hasTemp, hasTemp]

def TempCounts (fs : Tfs) (t count : Nat) : Prop :=
  ∃ image, fs.tempLog = some image ∧ image.counts t = count

theorem writeEav_tempCounts {t count : Nat} {image : LogImage}
    (keeps : (image.replay record).counts t = image.counts t)
    (accepted : answer.accepted = true) (temp : fs.tempAfter answer = some image)
    (counts : image.counts t = count) : (fs.writeEav answer record).1.TempCounts t count := by
  rw [writeEav_accepted accepted, TempCounts]
  refine ⟨_, congrArg (Option.map _) temp, ?_⟩
  split
  · exact keeps.trans counts
  · exact counts

theorem writeBoth_tempCounts {parent t count : Nat} {name : Bytes}
    (accepted : (answers 0).accepted = true) (noTemp : fs.tempLog = none)
    (rebuild : (answers 0).rebuild = true) (counts : fs.tree.linkCount t = count) :
    (fs.writeBoth answers (.entry parent name (some t)) (.nlink t count)).1.TempCounts t count := by
  have temp : fs.tempAfter (answers 0) = some fs.tree.image := by
    rw [tempAfter, noTemp]
    exact if_pos rebuild
  have started : (fs.writeEav (answers 0) (.entry parent name (some t))).1.TempCounts t count :=
    writeEav_tempCounts rfl accepted temp counts
  cases isTaken : fs.firstTaken answers with
  | false =>
    rw [writeBoth_of_not_firstTaken isTaken]
    exact started
  | true =>
    rw [writeBoth_of_firstTaken isTaken]
    obtain ⟨image, isImage, imageCounts⟩ := started
    cases secondAccepted : (answers 1).accepted with
    | false =>
      rw [writeEav_refused secondAccepted]
      exact ⟨image, isImage, imageCounts⟩
    | true =>
      have kept : (image.replay (.nlink t count)).counts t = image.counts t := by
        rw [imageCounts]
        exact Function.update_self ..
      apply writeEav_tempCounts kept secondAccepted _ imageCounts
      rw [tempAfter, isImage]

end Tfs

/-! ### Calls that fail -/

def FsCall.twoPaths : FsCall → Bool
  | .link .. => true
  | .rename .. => true
  | .exchange .. => true
  | _ => false

/-- A result with an error leaves the entries and the link counts as they were,
and the logs replay to them. -/
def Tfs.ErrorsCleanly (fs : Tfs) (result : Option (Tfs × Status)) : Prop :=
  ∀ fs' err, result = some (fs', .error err) →
    fs'.tree.image = fs.tree.image ∧ fs'.LogsAre fs'.tree.image

/-- If a write of a link is refused, what a log has accepted says nothing new, and
no new log was started with the count of the link. -/
def LinkArgs.WritesHarmless (args : LinkArgs) (fs : Tfs) (answers : Nat → LogAnswer) : Prop :=
  fs.tree.isDir args.newparent = true → fs.bothTaken answers = false →
    fs.Harmless answers fs.tree.image (.entry args.newparent args.newname (some args.old))
        (.nlink args.old (args.linkCount + 1)) ∧
      ((answers 0).accepted = true → fs.tempLog = none → (answers 0).rebuild = false)

def RenameArgs.WritesHarmless (args : RenameArgs) (fs : Tfs) (answers : Nat → LogAnswer) : Prop :=
  fs.tree.isDir args.oldparent = true → fs.tree.isDir args.newparent = true →
    fs.bothTaken answers = false →
      fs.Harmless answers fs.tree.image (.entry args.newparent args.newname (some args.old))
        (.entry args.oldparent args.oldname none)

def ExchangeArgs.WritesHarmless (args : ExchangeArgs) (fs : Tfs) (answers : Nat → LogAnswer) :
    Prop :=
  fs.tree.isDir args.parent1 = true → fs.tree.isDir args.parent2 = true →
    fs.bothTaken answers = false →
      fs.Harmless answers fs.tree.image (.entry args.parent2 args.name2 (some args.n1))
        (.entry args.parent1 args.name1 (some args.n2))

/-- If a write of the call is refused, what a log has accepted of it before says
nothing new. -/
def FsCall.WritesHarmless (depth : Nat) (fs : Tfs) (answers : Nat → LogAnswer) : FsCall → Prop
  | .link oldwd oldpath newwd newpath follow =>
    (fs.prepareLink depth oldwd oldpath newwd newpath follow).All fun args =>
      args.WritesHarmless fs answers
  | .rename oldwd oldpath newwd newpath noreplace =>
    (fs.prepareRename depth oldwd oldpath newwd newpath noreplace).All fun args =>
      (fs.fsCheckRename args).All fun _ => args.WritesHarmless fs answers
  | .exchange wd1 path1 wd2 path2 =>
    (fs.prepareExchange depth wd1 path1 wd2 path2).All fun args =>
      (fs.fsCheckExchange args).All fun _ => args.WritesHarmless fs answers
  | _ => True

namespace Tfs

variable {fs : Tfs} {answers : Nat → LogAnswer}

theorem proceed_errorsCleanly {Args : Type} (inSync : fs.LogsAre fs.tree.image)
    {prepared : Prepared Args} {commit : Args → Option (Tfs × Status)} {condition : Args → Prop}
    (commits : ∀ args, prepared = .go args →
      (fs.ErrorsCleanly (commit args) ↔ condition args)) :
    fs.ErrorsCleanly (fs.proceed prepared commit) ↔ prepared.All condition := by
  cases prepared with
  | fault => exact ⟨fun _ => trivial, fun _ => nofun⟩
  | done status =>
    refine ⟨fun _ => trivial, ?_⟩
    intro _ fs' err returned
    cases returned
    exact ⟨rfl, inSync⟩
  | go args => exact commits args rfl

theorem errorsCleanly_none : fs.ErrorsCleanly none :=
  nofun

theorem written_errorsCleanly {ok : Bool} {made back : Tfs} {condition : Prop}
    (image : back.tree.image = fs.tree.image)
    (logs : ok = false → (back.LogsAre fs.tree.image ↔ condition)) :
    fs.ErrorsCleanly (if ok then some (made, .ok ()) else some (back, .error .enospc)) ↔
      (ok = false → condition) := by
  cases ok with
  | true =>
    refine ⟨fun _ => nofun, ?_⟩
    intro _ fs' err returned
    cases returned
  | false =>
    constructor
    · intro clean _
      exact (logs rfl).mp (image ▸ (clean _ _ rfl).2)
    · intro harmless fs' err returned
      cases returned
      exact ⟨image, image ▸ (logs rfl).mpr (harmless rfl)⟩

/-- A call that changes the tuples only after both writes fails cleanly exactly
if the writes are harmless. -/
theorem writeBoth_errorsCleanly (inSync : fs.LogsAre fs.tree.image) {first second : LogRecord}
    {made : Tfs} :
    fs.ErrorsCleanly (if (fs.writeBoth answers first second).2 then some (made, .ok ())
        else some ((fs.writeBoth answers first second).1, .error .enospc)) ↔
      (fs.bothTaken answers = false → fs.Harmless answers fs.tree.image first second) := by
  rw [← writeBoth_ok fs answers first second]
  apply written_errorsCleanly (by rw [writeBoth_tree])
  exact writeBoth_logs inSync (fun _ _ _ => rfl) (fun _ => rfl)

theorem commitRename_errorsCleanly (inSync : fs.LogsAre fs.tree.image) (args : RenameArgs) :
    fs.ErrorsCleanly (fs.commitRename answers args) ↔
      (fs.fsCheckRename args).All fun _ => args.WritesHarmless fs answers := by
  apply proceed_errorsCleanly inSync
  intro _ _
  rw [RenameArgs.WritesHarmless]
  cases oldDir : fs.tree.isDir args.oldparent with
  | false => simpa using errorsCleanly_none
  | true =>
    cases newDir : fs.tree.isDir args.newparent with
    | false => simpa using errorsCleanly_none
    | true =>
      simp only [Bool.true_eq_false, or_self, if_false, true_imp_iff]
      exact writeBoth_errorsCleanly inSync

theorem commitExchange_errorsCleanly (inSync : fs.LogsAre fs.tree.image) (args : ExchangeArgs) :
    fs.ErrorsCleanly (fs.commitExchange answers args) ↔
      (fs.fsCheckExchange args).All fun _ => args.WritesHarmless fs answers := by
  apply proceed_errorsCleanly inSync
  intro _ _
  rw [ExchangeArgs.WritesHarmless]
  cases dir1 : fs.tree.isDir args.parent1 with
  | false => simpa using errorsCleanly_none
  | true =>
    cases dir2 : fs.tree.isDir args.parent2 with
    | false => simpa using errorsCleanly_none
    | true =>
      simp only [Bool.true_eq_false, or_self, if_false, true_imp_iff]
      exact writeBoth_errorsCleanly inSync

def counted (fs : Tfs) (args : LinkArgs) : Tfs :=
  fs.setTree (fs.tree.setNlink args.old (args.linkCount + 1))

def writeLink (fs : Tfs) (answers : Nat → LogAnswer) (args : LinkArgs) : Tfs × Bool :=
  (fs.counted args).writeBoth answers (.entry args.newparent args.newname (some args.old))
    (.nlink args.old (args.linkCount + 1))

variable {args : LinkArgs}

theorem commitLink_of_file (writable : fs.ro = false)
    (file : fs.tree.isDir args.newparent = false) : fs.commitLink answers args = none := by
  have stillFile : (fs.counted args).tree.isDir args.newparent = false :=
    (FileTree.isDir_setNlink ..).trans file
  have faults : (fs.counted args).linkDirEntry answers args.newparent args.newname args.old =
      none := by
    rw [linkDirEntry, if_neg (by simp [counted, setTree, writable]), if_pos stillFile]
  simp only [commitLink]
  rw [← counted, faults]

theorem commitLink_of_dir (writable : fs.ro = false)
    (dir : fs.tree.isDir args.newparent = true) :
    ∃ made, fs.commitLink answers args =
      if (fs.writeLink answers args).2 then some (made, .ok ())
      else some ((fs.writeLink answers args).1.setTree ((fs.counted args).tree.setNlink args.old
        args.linkCount), .error .enospc) := by
  have count : (fs.counted args).tree.linkCount args.old = args.linkCount + 1 :=
    FileTree.linkCount_setNlink ..
  refine ⟨(fs.writeLink answers args).1.setTree (((fs.counted args).tree.setEntry args.newparent
    args.newname (some args.old)).fsdirSetParent args.old args.newparent), ?_⟩
  simp only [commitLink]
  rw [← counted, linkDirEntry, if_neg (by simp [counted, setTree, writable]),
    if_neg (by simp [counted, setTree, dir])]
  simp only [count]
  rw [← writeLink]
  cases written : (fs.writeLink answers args).2 with
  | true => rfl
  | false =>
    simp only [Bool.false_eq_true, if_false, Option.some.injEq, Prod.mk.injEq, and_true]
    rw [writeLink, writeBoth_tree]

theorem writeLink_logs (inSync : fs.LogsAre fs.tree.image)
    (linkCount : args.linkCount = fs.tree.linkCount args.old)
    (failed : (fs.writeLink answers args).2 = false) :
    (fs.writeLink answers args).1.LogsAre fs.tree.image ↔
      fs.Harmless answers fs.tree.image (.entry args.newparent args.newname (some args.old))
          (.nlink args.old (args.linkCount + 1)) ∧
        ((answers 0).accepted = true → fs.tempLog = none → (answers 0).rebuild = false) := by
  have logs : (fs.counted args).LogsAre fs.tree.image := ⟨inSync.log, inSync.tempLog⟩
  have changes : (fs.tree.image.replay (.entry args.newparent args.newname (some args.old))).replay
      (.nlink args.old (args.linkCount + 1)) = fs.tree.image →
        (fs.counted args).tree.image = fs.tree.image := by
    intro same
    have count := congrArg (fun image => image.counts args.old) same
    have isNext : args.linkCount + 1 = fs.tree.linkCount args.old :=
      (Function.update_self ..).symm.trans count
    omega
  have harmlessIff (noRebuild : (answers 0).accepted = true → fs.tempLog = none →
      (answers 0).rebuild = false) :=
    writeBoth_logs logs
      (fun accepted noTemp rebuild => by
        rw [noRebuild accepted noTemp] at rebuild
        cases rebuild)
      changes failed
  constructor
  · intro after
    have noRebuild : (answers 0).accepted = true → fs.tempLog = none →
        (answers 0).rebuild = false := by
      intro accepted noTemp
      by_contra rebuild
      rw [Bool.not_eq_false] at rebuild
      obtain ⟨image, temp, counts⟩ := @writeBoth_tempCounts (fs.counted args) answers
        args.newparent args.old (args.linkCount + 1) args.newname accepted noTemp rebuild
        (FileTree.linkCount_setNlink ..)
      have same := after.tempLog image temp
      rw [same] at counts
      have isNext : fs.tree.linkCount args.old = args.linkCount + 1 := counts
      omega
    have harmless := (harmlessIff noRebuild).mp after
    exact ⟨⟨harmless.one, harmless.both⟩, noRebuild⟩
  · intro both
    exact (harmlessIff both.2).mpr ⟨both.1.one, both.1.both⟩

theorem commitLink_errorsCleanly (inSync : fs.LogsAre fs.tree.image)
    (linkCount : args.linkCount = fs.tree.linkCount args.old) (writable : fs.ro = false) :
    fs.ErrorsCleanly (fs.commitLink answers args) ↔ args.WritesHarmless fs answers := by
  rw [LinkArgs.WritesHarmless]
  cases dir : fs.tree.isDir args.newparent with
  | false =>
    rw [commitLink_of_file writable dir]
    exact ⟨fun _ => nofun, fun _ => errorsCleanly_none⟩
  | true =>
    have takenBack : ((fs.counted args).tree.setNlink args.old args.linkCount).image =
        fs.tree.image := by
      apply FileTree.image_eq_of_shape
      rw [linkCount]
      exact FileTree.shape_setNlink_back ..
    have ok : (fs.writeLink answers args).2 = fs.bothTaken answers := writeBoth_ok ..
    obtain ⟨made, result⟩ := @commitLink_of_dir fs answers args writable dir
    rw [result, ← ok, eq_self, true_imp_iff]
    apply written_errorsCleanly takenBack
    intro failed
    rw [← writeLink_logs inSync linkCount failed]
    exact ⟨fun after => ⟨after.log, after.tempLog⟩, fun after => ⟨after.log, after.tempLog⟩⟩

theorem prepareLink_counted {depth oldwd newwd : Nat} {oldpath newpath : Bytes} {follow : Bool}
    (prepared : fs.prepareLink depth oldwd oldpath newwd newpath follow = .go args) :
    args.linkCount = fs.tree.linkCount args.old ∧ fs.ro = false := by
  simp only [prepareLink, Prepared.bind_eq_go, Prepared.require_eq_go] at prepared
  obtain ⟨-, -, -, -, old, -, -, -, -, -, newparent, -, -, writable, -, -, -, -, -, -, rest⟩ :=
    prepared
  cases rest
  exact ⟨rfl, by simpa using writable⟩

/-- A link, a rename or an exchange on a filesystem whose logs replay to its
tuples fails cleanly exactly if its writes are harmless. -/
theorem fails_cleanly_iff (depth : Nat) {fs : Tfs} (inSync : fs.LogsAre fs.tree.image)
    (answers : Nat → LogAnswer) {call : FsCall} (twoPaths : call.twoPaths = true) :
    fs.ErrorsCleanly (fs.call depth answers call) ↔ call.WritesHarmless depth fs answers := by
  cases call with
  | link oldwd oldpath newwd newpath follow =>
    apply proceed_errorsCleanly inSync
    intro args prepared
    obtain ⟨linkCount, writable⟩ := prepareLink_counted prepared
    exact commitLink_errorsCleanly inSync linkCount writable
  | rename oldwd oldpath newwd newpath noreplace =>
    apply proceed_errorsCleanly inSync
    intro args _
    exact commitRename_errorsCleanly inSync args
  | exchange wd1 path1 wd2 path2 =>
    apply proceed_errorsCleanly inSync
    intro args _
    exact commitExchange_errorsCleanly inSync args
  | mkdir cwd path => cases twoPaths
  | create cwd path follow excl => cases twoPaths
  | symlink cwd path target => cases twoPaths
  | delete cwd path directory => cases twoPaths

/-- A root with a directory `d`. -/
def dirTree : FileTree :=
  (((emptyRoot.newEntry newDir).setFile 1 true).setEntry 0 [0x64] (some 1)).fsdirSetParent 1 0

def dirTfs : Tfs :=
  ⟨dirTree, false, dirTree.image, none⟩

theorem dirTree_wellFormed : dirTree.WellFormed := by
  have nameFree : emptyRoot.NameFree 0 [0x64] := by
    decide
  exact emptyRoot_wellFormed.created (by rfl : emptyRoot.files 0 = true) rfl nameFree newDir_fresh

theorem dirTfs_logsAre : dirTfs.LogsAre dirTfs.tree.image :=
  ⟨rfl, nofun⟩

def renameDir : FsCall :=
  .rename 0 [0x64] 0 [0x65] false

theorem fails_cleanly_iff_refused :
    (dirTfs.call 0 (fun _ => ⟨false, false, true⟩) renameDir).map Prod.snd =
        some (.error .enospc) ∧
      dirTfs.ErrorsCleanly (dirTfs.call 0 (fun _ => ⟨false, false, true⟩) renameDir) := by
  refine ⟨by decide, ?_⟩
  apply (fails_cleanly_iff 0 dirTfs_logsAre (fun _ => ⟨false, false, true⟩) rfl).mpr
  have harmless : ∀ args : RenameArgs,
      args.WritesHarmless dirTfs (fun _ => ⟨false, false, true⟩) := by
    intro args _ _ _
    exact ⟨nofun, fun _ => nofun⟩
  rw [renameDir, FsCall.WritesHarmless]
  cases dirTfs.prepareRename 0 0 [0x64] 0 [0x65] false with
  | fault => trivial
  | done status => trivial
  | go args =>
    rw [Prepared.All]
    cases dirTfs.fsCheckRename args with
    | fault => trivial
    | done status => trivial
    | go _ => exact harmless args

/-- When the record of the old name is refused, the rename fails, but after a
replay of the log the new name is there. -/
theorem failed_rename_stays_in_log :
    dirTfs.tree.WellFormed ∧ dirTfs.LogsAre dirTfs.tree.image ∧
      ∃ fs', dirTfs.call 0 (fun write => ⟨write = 0, false, true⟩) renameDir =
          some (fs', .error .enospc) ∧
        fs'.log ≠ fs'.tree.image := by
  have ends : (dirTfs.call 0 (fun write => ⟨write = 0, false, true⟩) renameDir).map
      (fun result => (result.2, result.1.log.entries 0 [0x65], result.1.tree.entry 0 [0x65])) =
        some (.error .enospc, some 1, none) := by
    decide
  obtain ⟨result, called, facts⟩ := Option.map_eq_some_iff.mp ends
  obtain ⟨status, inLog, inTree⟩ : result.2 = .error .enospc ∧
      result.1.log.entries 0 [0x65] = some 1 ∧ result.1.tree.entry 0 [0x65] = none := by
    simpa using facts
  refine ⟨dirTree_wellFormed, dirTfs_logsAre, result.1, ?_, ?_⟩
  · rw [called, ← status]
  · intro same
    have entries := congrArg (fun image => image.entries 0 [0x65]) same
    cases inLog.symm.trans (entries.trans inTree)

end Tfs

end Jerboa.Kernel
