import BackendGauntlet.ObjectStoreIndex
import BackendGauntlet.ObjectStoreTiering

/-! A lifecycle sweep with all its phases and every way it can raise. -/
namespace BackendGauntlet.ObjectStore

open PyText List Option Dict

inductive SweepError
  | app (e : AppError)
  | osError
  | overflowError
deriving DecidableEq

/-- `timedelta(days=...)` takes at most this many days, in either direction. -/
def timedeltaMaxDays : ℕ := 999999999

/-- The integers from here on do not round to a float. -/
def floatLimit : ℕ := 2^1024-2^970

/-- `_older_than_days`, where there is an instant to compare and a rule with an age. -/
def aged (now : ℤ) : Option ℤ → Option ℤ → Except SweepError Bool
  | some lastModified, some days =>
    if timedeltaMaxDays < days.natAbs then .error .overflowError
    else .ok (olderThanDays lastModified now days)
  | _, _ => .ok false

/-- The elements a loop selects, unless its test raises. -/
def pick {α ε : Type} (f : α → Except ε Bool) : List α → Except ε (List α)
  | [] => .ok []
  | a :: as =>
    match f a with
    | .error e => .error e
    | .ok keep => (pick f as).map (fun rest => if keep then a :: rest else rest)

def ageFor (policy : LifecyclePolicy) (age : LifecycleRule → Option ℤ) (key : Key) : Option ℤ :=
  (matchingRule policy key).bind age

def liveSince (e : Key × ObjectMeta) : Option ℤ := e.2.latestLive.map ResolvedObject.lastModified

def digestOf (e : Key × ObjectMeta) : Option Digest := e.2.latestLive.map (fun r => r.live.digest)

def blobSince (rows : Dict Key ObjectMeta) (e : Key × ObjectMeta) : Option ℤ :=
  (digestOf e).bind (youngest rows).get

def supersededSince (m : ObjectMeta) (v : VersionEntry) : Option ℤ :=
  if v.id = m.latest then none else some v.lastModified

structure SweepCounts where
  expired : ℕ
  tiered : ℕ
  bytesReclaimed : ℕ
  uploadsAborted : ℕ
  noncurrentExpired : ℕ
deriving DecidableEq

/-- The staging directories with their modification times, or none without multipart uploads. -/
structure SweepWorld where
  index : Index
  store : StoreState
  uploads : Option (Dict Text ℤ)
  report : SweepCounts

abbrev SweepOutcome := SweepWorld × Option SweepError

def SweepOutcome.andThen (r : SweepOutcome) (f : SweepWorld → SweepOutcome) : SweepOutcome :=
  match r.2 with
  | some _ => r
  | none => f r.1

def SweepWorld.setRows (w : SweepWorld) (b : Bucket) (st : BucketState)
    (rows : Dict Key ObjectMeta) : SweepWorld :=
  { w with index := w.index.set b { st with rows := rows } }

def deleteEach (key : Key) :
    Dict Key ObjectMeta → List VersionId → Dict Key ObjectMeta × ℕ × Option SweepError
  | rows, [] => (rows,0,none)
  | rows, id :: ids =>
    match deleteVersion rows key id with
    | none => (rows,0,some (.app .noSuchKey))
    | some rows' =>
      let rest := deleteEach key rows' ids
      (rest.1,rest.2.1+1,rest.2.2)

section
variable (now : ℤ)

/-- `_expire_noncurrent`: the rows it leaves, how many versions it has deleted, and what it
raised. -/
def reapNoncurrent (policy : LifecyclePolicy) :
    Dict Key ObjectMeta → List (Key × ObjectMeta) → Dict Key ObjectMeta × ℕ × Option SweepError
  | rows, [] => (rows,0,none)
  | rows, (key,m) :: es =>
    -- the list is made from the entry as it was read, before anything is deleted
    match pick (fun v => aged now (supersededSince m v)
      (ageFor policy LifecycleRule.noncurrentExpireAfterDays key)) m.versions with
    | .error e => (rows,0,some e)
    | .ok stale =>
      let deleted := deleteEach key rows (stale.map VersionEntry.id)
      match deleted.2.2 with
      | some e => (deleted.1,deleted.2.1,some e)
      | none =>
        let rest := reapNoncurrent policy deleted.1 es
        (rest.1,deleted.2.1+rest.2.1,rest.2.2)

variable (codec : Codec)

/-- What `_tier_one` reports: one blob and the bytes it has saved, or nothing. -/
def tierGain (s : StoreState) (d : Digest) : ℕ × ℕ :=
  match s.locate d, s.hot.get d with
  | .ok .raw, some f =>
    (1,f.content.length-(((tierBlob codec s d f).cold.get d).getD []).length)
  | _, _ => (0,0)

def tierGains (s : StoreState) : List Digest → ℕ × ℕ
  | [] => (0,0)
  | d :: ds =>
    let gain := tierGain codec s d
    let rest := tierGains (tierOne codec s d).2 ds
    (gain.1+rest.1,gain.2+rest.2)

def tierPhase (policy : LifecyclePolicy) (entries : Dict Key ObjectMeta) (w : SweepWorld) :
    SweepOutcome :=
  match pick (fun e => aged now (blobSince entries e)
    (ageFor policy LifecycleRule.tierAfterDays e.1)) entries.entries with
  | .error e => (w,some e)
  | .ok due =>
    let candidates := (due.filterMap digestOf).dedup
    let tiered := tierAll codec w.store candidates
    let gains := tierGains codec w.store candidates
    -- the `stat` of a hot file that is not there; what was migrated before it stays so
    if tiered.1 then ({ w with store := tiered.2 },some .osError)
    else
      ({ w with
        store := tiered.2
        report := { w.report with
          tiered := w.report.tiered+gains.1
          bytesReclaimed := w.report.bytesReclaimed+gains.2 } },none)

def noncurrentPhase (b : Bucket) (st : BucketState) (entries : Dict Key ObjectMeta)
    (w : SweepWorld) : SweepOutcome :=
  let reaped := reapNoncurrent now st.policy entries entries.entries
  let w := w.setRows b st reaped.1
  ({ w with report := { w.report with
    noncurrentExpired := w.report.noncurrentExpired+reaped.2.1 } },reaped.2.2)

def abortThreshold (policy : LifecyclePolicy) : Option ℤ :=
  (policy.filterMap (fun rule =>
    if rule.enabled then rule.abortMultipartAfterDays else none)).min?

/-- `Multipart.abort` of the listed sessions; one that is gone is only logged. -/
def abortEach : Dict Text ℤ → List Text → Dict Text ℤ × ℕ
  | uploads, [] => (uploads,0)
  | uploads, id :: ids =>
    if uploads.contains id then
      let rest := abortEach (uploads.erase id) ids
      (rest.1,rest.2+1)
    else abortEach uploads ids

-- `mtime < now.timestamp() - days * 86400.0`, a comparison of floats
variable (predates : ℤ → ℤ → ℤ → Bool)

def abortStaleUploads (policy : LifecyclePolicy) (w : SweepWorld) : SweepOutcome :=
  match w.uploads, abortThreshold policy with
  | some uploads, some days =>
    -- an integer times a float is a float first
    if floatLimit ≤ days.natAbs then (w,some .overflowError)
    else
      let aborted := abortEach uploads ((uploads.filter (fun _ mtime =>
        predates mtime now days)).keys)
      ({ w with
        uploads := some aborted.1
        report := { w.report with uploadsAborted := w.report.uploadsAborted+aborted.2 } },none)
  | _, _ => (w,none)

def sweepBucket (w : SweepWorld) (b : Bucket) : SweepOutcome :=
  match w.index.get b with
  | none => (w,some (.app .noSuchBucket))
  | some st =>
    if st.policy = [] then (w,none)
    else
      match pick (fun e => aged now (liveSince e)
        (ageFor st.policy LifecycleRule.expireAfterDays e.1)) st.rows.entries with
      | .error e => (w,some e)
      | .ok toExpire =>
        -- a delete of the latest version drops the row with its history
        let entries := st.rows.filter (fun k _ => k ∉ toExpire.map Prod.fst)
        let w := w.setRows b st entries
        let w := { w with report := { w.report with
          expired := w.report.expired+toExpire.length } }
        ((tierPhase now codec st.policy entries w).andThen
          (noncurrentPhase now b st entries)).andThen (abortStaleUploads now predates st.policy)

def runOnceAt : List Bucket → SweepWorld → SweepOutcome
  | [], w => (w,none)
  | b :: bs, w => (sweepBucket now codec predates w b).andThen (runOnceAt bs)

end

end BackendGauntlet.ObjectStore
