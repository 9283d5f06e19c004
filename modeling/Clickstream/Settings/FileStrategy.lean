import Clickstream.Settings.Field

namespace Clickstream

/-- When a file of records is rolled over and synced, and where it is kept. -/
structure FileStrategy where
  rollEvery : Duration
  syncAfterRecords : Nat
  syncAfterDuration : Duration
  workingDir : Directory
  publishDir : Directory
  deriving DecidableEq

namespace FileStrategy

def standard : FileStrategy where
  rollEvery := ⟨TimeUnit.hour.nanos, by decide⟩
  syncAfterRecords := 1000
  syncAfterDuration := ⟨30 * TimeUnit.second.nanos, by decide⟩
  workingDir := ⟨"/tmp"⟩
  publishDir := ⟨"/tmp"⟩

def summary (s : FileStrategy) : String :=
  s!"FileStrategyConfig \x7b roll_every: {s.rollEvery.format}, " ++
    s!"sync_file_after_records: {s.syncAfterRecords}, " ++
    s!"sync_file_after_duration: {s.syncAfterDuration.format}, " ++
    s!"working_dir: {s.workingDir.text}, publish_dir: {s.publishDir.text} \x7d"

/-- Directories are compared by where they lead. -/
def same (a b : FileStrategy) : Bool :=
  a.rollEvery == b.rollEvery && a.syncAfterRecords == b.syncAfterRecords &&
    a.syncAfterDuration == b.syncAfterDuration && a.workingDir.same b.workingDir &&
    a.publishDir.same b.publishDir

end FileStrategy

def Settings.Library.fileStrategy (library : Library) : Group FileStrategy where
  name := "FileStrategyConfig"
  defaults := .standard
  fields := [
    ⟨Duration, "roll_every", library.duration, fun s b => { s with rollEvery := b }⟩,
    ⟨Nat, "sync_file_after_records", library.count, fun s b => { s with syncAfterRecords := b }⟩,
    ⟨Duration, "sync_file_after_duration", library.duration,
      fun s b => { s with syncAfterDuration := b }⟩,
    ⟨Directory, "working_dir", library.directory, fun s b => { s with workingDir := b }⟩,
    ⟨Directory, "publish_dir", library.directory, fun s b => { s with publishDir := b }⟩]

end Clickstream
