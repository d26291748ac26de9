import BackendGauntlet.ObjectStoreHaystack

/-! Reading back what the log and the snapshot were written with, torn appends included. -/
namespace BackendGauntlet.ObjectStore

open PyText List
open Json (plainText_of_all)

variable {c : Char} {op : LogOp}

theorem plain_of_hex (hc : isHexChar c = true) :
    Json.isPlain c = true ∧ c ≠ '\x7d' ∧ c ≠ '\n' := by
  have hn : (48 ≤ c.toNat ∧ c.toNat ≤ 57) ∨ (97 ≤ c.toNat ∧ c.toNat ≤ 102) ∨
      (65 ≤ c.toNat ∧ c.toNat ≤ 70) := by
    simpa [isHexChar, or_assoc] using hc
  have hne (x : Char) (hx : isHexChar x = false) : c ≠ x := by
    rintro rfl
    exact absurd (hc.symm.trans hx) (by decide)
  refine ⟨?_,hne _ (by decide),hne _ (by decide)⟩
  simp only [Json.isPlain, Bool.and_eq_true, decide_eq_true_eq, ne_eq, hne '"' (by decide),
    hne '\\' (by decide), not_false_eq_true, and_true]
  omega

theorem volumeId_char {v : VolumeId} (hc : c ∈ v.text) :
    Json.isPlain c = true ∧ c ≠ '\x7d' ∧ c ≠ '\n' := by
  obtain ⟨i,hi,rfl⟩ := getElem_of_mem hc
  have hall := List.all_eq_true.mp v.valid.2 (v.text[i],i)
    (mem_zipIdx_iff_getElem?.mpr (by simp [hi]))
  simp only [isUuidChar] at hall
  split_ifs at hall with hd
  · rw [of_decide_eq_true hall]
    decide
  · refine plain_of_hex ?_
    simp only [isHexChar, Bool.or_eq_true, Bool.and_eq_true, decide_eq_true_eq] at hall ⊢
    omega

theorem digest_char {d : Digest} (hc : c ∈ d.text) :
    Json.isPlain c = true ∧ c ≠ '\x7d' ∧ c ≠ '\n' :=
  plain_of_hex (d.isHexChar_text c hc)

theorem offset_printable {n : ℕ} (hn : n < offsetLimit) : (Json.num n).Printable := by
  have hlt : n < 10^4300 := Nat.lt_of_lt_of_le hn (by
    calc offsetLimit ≤ 10^19 := by decide
      _ ≤ 10^4300 := Nat.pow_le_pow_right (by decide) (by decide))
  simp only [Json.Printable, Int.natAbs_natCast]
  exact (Nat.length_toDigits_le_iff (by decide) (by decide)).mpr hlt

theorem locator_printable (l : NeedleLocator) :
    (Json.num l.payloadOffset).Printable ∧ (Json.num l.size).Printable := by
  have h := l.inRange
  exact ⟨offset_printable (by omega),offset_printable (by omega)⟩

theorem logOp_printable (op : LogOp) : op.json.Printable := by
  cases op with
  | put d l =>
    obtain ⟨ho,hz⟩ := locator_printable l
    exact ⟨plainText_of_all (by decide),plainText_of_all (by decide),
      plainText_of_all (by decide),fun c hc => (digest_char hc).1,
      plainText_of_all (by decide),
      fun c hc => (volumeId_char hc).1,plainText_of_all (by decide),ho,
      plainText_of_all (by decide),hz,trivial⟩
  | delete d | quarantine d =>
    exact ⟨plainText_of_all (by decide),plainText_of_all (by decide),
      plainText_of_all (by decide),fun c hc => (digest_char hc).1,trivial⟩

theorem readDigest_text (d : Digest) : readDigest (.str d.text) = .ok d := by
  simp [readDigest, Digest.new_text]

theorem readLocator_locator (l : NeedleLocator) :
    readLocator (.str l.volumeId.text) (.num l.payloadOffset) (.num l.size) = .ok l := by
  have hr := l.inRange
  simp [readLocator, l.volumeId.valid, hr]

theorem applyLogOp_json (op : LogOp) (index : NeedleIndex) :
    applyLogOp op.json index = .ok (op.apply index) := by
  cases op with
  | put d l =>
    have hop : readField (LogOp.json (.put d l)) "op" = .ok (.str "put".toList) := rfl
    have hd : readField (LogOp.json (.put d l)) "digest" = .ok (.str d.text) := rfl
    have hv : readField (LogOp.json (.put d l)) "volume_id" = .ok (.str l.volumeId.text) := rfl
    have ho : readField (LogOp.json (.put d l)) "offset" = .ok (.num l.payloadOffset) := rfl
    have hz : readField (LogOp.json (.put d l)) "size" = .ok (.num l.size) := rfl
    simp only [applyLogOp, hop, hd, hv, ho, hz, bind, Except.bind, readDigest_text,
      readLocator_locator]
    rfl
  | delete d =>
    have hop : readField (LogOp.json (.delete d)) "op" = .ok (.str "delete".toList) := rfl
    have hd : readField (LogOp.json (.delete d)) "digest" = .ok (.str d.text) := rfl
    simp only [applyLogOp, hop, hd, bind, Except.bind, readDigest_text]
    rfl
  | quarantine d =>
    have hop : readField (LogOp.json (.quarantine d)) "op" = .ok (.str "quarantine".toList) := rfl
    have hd : readField (LogOp.json (.quarantine d)) "digest" = .ok (.str d.text) := rfl
    simp only [applyLogOp, hop, hd, bind, Except.bind, readDigest_text]
    rfl

theorem line_shape (op : LogOp) : ∃ body, op.line = '\x7b' :: (body ++ ['\x7d']) ∧
    ∀ c ∈ body, c ≠ '\x7d' ∧ c ≠ '\n' := by
  have hnum (n : ℕ) (c : Char) (hc : c ∈ intText n) : c ≠ '\x7d' ∧ c ≠ '\n' := by
    rcases mem_intText hc with hd | rfl
    · exact ⟨by rintro rfl; exact absurd hd (by decide),by rintro rfl; exact absurd hd (by decide)⟩
    · decide
  have hP : ∀ c ∈ [',', ' ', ':', '"'], c ≠ '\x7d' ∧ c ≠ '\n' :=
    all_iff_forall_prop.mp (by decide)
  -- The keys and the constant texts are checked by evaluation.
  have hkey (k : Text) (hk : k.all (fun c => Json.isPlain c && c ≠ '\x7d' && c ≠ '\n') = true) :
      Json.PlainText k ∧ ∀ c ∈ k, c ≠ '\x7d' ∧ c ≠ '\n' := by
    have hall : ∀ c ∈ k, (Json.isPlain c = true ∧ c ≠ '\x7d') ∧ c ≠ '\n' := by
      simpa using hk
    exact ⟨fun c hc => (hall c hc).1.1,fun c hc => ⟨(hall c hc).1.2,(hall c hc).2⟩⟩
  have hstr (k : Text) (hk : Json.PlainText k) (h : ∀ c ∈ k, c ≠ '\x7d' ∧ c ≠ '\n') :
      ∀ c ∈ Json.text none 1 (.str k), c ≠ '\x7d' ∧ c ≠ '\n' :=
    Json.forall_mem_quoted _ hP k hk h
  have hdig (d : Digest) := hstr d.text (fun c hc => (digest_char hc).1)
    (fun c hc => (digest_char hc).2)
  have hvol (v : VolumeId) := hstr v.text (fun c hc => (volumeId_char hc).1)
    (fun c hc => (volumeId_char hc).2)
  have hlit (k : Text) (hk : k.all (fun c => Json.isPlain c && c ≠ '\x7d' && c ≠ '\n') = true) :=
    hstr k (hkey k hk).1 (hkey k hk).2
  cases op with
  | put d l =>
    refine Json.object_shape _ hP ?_
    simp only [forall_mem_cons, not_mem_nil, false_implies, implies_true, and_true]
    exact ⟨⟨(hkey _ (by decide)).1,(hkey _ (by decide)).2,hlit _ (by decide)⟩,
      ⟨(hkey _ (by decide)).1,(hkey _ (by decide)).2,hdig d⟩,
      ⟨(hkey _ (by decide)).1,(hkey _ (by decide)).2,hvol l.volumeId⟩,
      ⟨(hkey _ (by decide)).1,(hkey _ (by decide)).2,hnum l.payloadOffset⟩,
      (hkey _ (by decide)).1,(hkey _ (by decide)).2,hnum l.size⟩
  | delete d | quarantine d =>
    refine Json.object_shape _ hP ?_
    simp only [forall_mem_cons, not_mem_nil, false_implies, implies_true, and_true]
    exact ⟨⟨(hkey _ (by decide)).1,(hkey _ (by decide)).2,hlit _ (by decide)⟩,
      (hkey _ (by decide)).1,(hkey _ (by decide)).2,hdig d⟩

def logText (ops : List LogOp) : Text := ops.flatMap (fun op => op.line ++ ['\n'])

theorem newline_not_mem_line (op : LogOp) : '\n' ∉ op.line := by
  obtain ⟨body,hl,hb⟩ := line_shape op
  rw [hl]
  simp only [mem_cons, mem_append, not_mem_nil, or_false, not_or]
  exact ⟨by decide,fun h => (hb _ h).2 rfl,by decide⟩

theorem replayLines_line (op : LogOp) (lines : List Text) (index : NeedleIndex) :
    replayLines (op.line :: lines) index = replayLines lines (op.apply index) := by
  obtain ⟨body,hl,_⟩ := line_shape op
  have hs : strip op.line = op.line := by
    rw [hl]
    exact strip_eq_self _ _ _ (by decide) (by decide)
  have hne : op.line ≠ [] := by simp [hl]
  have hload : Json.loads op.line = some op.json :=
    Json.loads_dumps none (logOp_printable op)
  simp [replayLines, hs, hne, hload, applyLogOp_json]

/-- A torn last line is skipped when nothing of it was written, else it ends the replay. -/
theorem replayLines_torn {tail : Text} (ht : tail <+: op.line) (hne : tail ≠ op.line)
    (index : NeedleIndex) : replayLines [tail] index = .ok index := by
  obtain ⟨body,hl,hb⟩ := line_shape op
  cases tail with
  | nil => rfl
  | cons c t =>
    rw [hl, cons_prefix_cons] at ht
    obtain ⟨rfl,ht⟩ := ht
    have hsub : ∀ x ∈ t, x ≠ '\x7d' := by
      rcases prefix_concat_iff.mp ht with ht | ht
      · exact absurd (by rw [hl, ht]) hne
      · exact fun x hx => (hb x (ht.subset hx)).1
    obtain ⟨u,hu,hmem⟩ := strip_cons '\x7b' t (by decide)
    have hload : Json.loads ('\x7b' :: u) = none :=
      Json.loads_unclosed (fun h => hsub _ (hmem _ h) rfl)
    simp [replayLines, hu, hload]

theorem replayLog_append (ops : List LogOp) (tail : Text) (index : NeedleIndex) :
    replayLog (logText ops ++ tail) index = replayLog tail (ops.foldl LogOp.apply index) := by
  induction ops generalizing index with
  | nil => rfl
  | cons op ops ih =>
    have hsplit : splitChar '\n' (logText (op :: ops) ++ tail) =
        op.line :: splitChar '\n' (logText ops ++ tail) := by
      have h := splitChar_append '\n' op.line (logText ops ++ tail) (newline_not_mem_line op)
      simpa [logText] using h
    rw [replayLog, hsplit, replayLines_line]
    exact ih (op.apply index)

theorem replayLog_tail {tail : Text} (ht : tail <+: op.line) (index : NeedleIndex) :
    replayLog tail index = .ok (if tail = op.line then op.apply index else index) := by
  have hn : '\n' ∉ tail := fun h => newline_not_mem_line op (ht.subset h)
  rw [replayLog, splitChar_none '\n' tail hn]
  split_ifs with he
  · rw [he, replayLines_line]
    rfl
  · exact replayLines_torn ht he index

def LogOp.row (op : LogOp) (d : Digest) (r : Option NeedleRecord) : Option NeedleRecord :=
  if op.digest = d then
    match op with
    | .put _ l => some ⟨l,false,false⟩
    | .delete _ => r.map (fun r => { r with deleted := true })
    | .quarantine _ => r.map (fun r => { r with quarantined := true })
  else r

theorem get_apply (op : LogOp) (index : NeedleIndex) (d : Digest) :
    (op.apply index).get d = op.row d (index.get d) := by
  cases op with
  | put x l =>
    by_cases hd : d = x
    · simp [LogOp.apply, LogOp.row, LogOp.digest, hd]
    · simp [LogOp.apply, LogOp.row, LogOp.digest, Dict.get_set_ne, hd, Ne.symm hd]
  | delete x | quarantine x =>
    by_cases hd : d = x
    · simp [LogOp.apply, LogOp.row, LogOp.digest, Dict.get_modify, hd]
    · simp [LogOp.apply, LogOp.row, LogOp.digest, Dict.get_modify, hd, Ne.symm hd]

theorem row_ne {d : Digest} (r : Option NeedleRecord) (hd : op.digest ≠ d) :
    op.row d r = r := if_neg hd

def rowAfter (ops : List LogOp) (d : Digest) (r : Option NeedleRecord) : Option NeedleRecord :=
  ops.foldl (fun r op => op.row d r) r

theorem get_applyAll (ops : List LogOp) (index : NeedleIndex) (d : Digest) :
    (ops.foldl LogOp.apply index).get d = rowAfter ops d (index.get d) := by
  unfold rowAfter
  induction ops generalizing index with
  | nil => rfl
  | cons op ops ih => rw [foldl_cons, foldl_cons, ih, get_apply]

/-- A sequence of operations either decides the row of a digest or only raises flags of it. -/
theorem rowAfter_decided_or_flagged (ops : List LogOp) (d : Digest) :
    (∃ c, ∀ r, rowAfter ops d r = c) ∨
      ∃ a b : Bool, ∀ r, rowAfter ops d r =
        r.map (fun r => { r with
          deleted := r.deleted || a
          quarantined := r.quarantined || b }) := by
  induction ops with
  | nil =>
    refine Or.inr ⟨false,false,fun r => ?_⟩
    cases r <;> simp [rowAfter]
  | cons op ops ih =>
    have hcons (r : Option NeedleRecord) : rowAfter (op :: ops) d r = rowAfter ops d (op.row d r) :=
      rfl
    rcases ih with ⟨c,hc⟩ | ⟨a,b,hab⟩
    · exact Or.inl ⟨c,fun r => (hcons r).trans (hc _)⟩
    · by_cases hd : op.digest = d
      · cases op with
        | put x l =>
          exact Or.inl ⟨some ⟨l,false || a,false || b⟩,fun r => by
            rw [hcons, hab, LogOp.row, if_pos hd]
            rfl⟩
        | delete x =>
          refine Or.inr ⟨true,b,fun r => ?_⟩
          rw [hcons, hab, LogOp.row, if_pos hd]
          cases r <;> simp
        | quarantine x =>
          refine Or.inr ⟨a,true,fun r => ?_⟩
          rw [hcons, hab, LogOp.row, if_pos hd]
          cases r <;> simp
      · exact Or.inr ⟨a,b,fun r => by rw [hcons, row_ne r hd, hab]⟩

/-- A crash may leave a snapshot together with the log that it covers. -/
theorem rowAfter_idempotent (ops : List LogOp) (d : Digest) (r : Option NeedleRecord) :
    rowAfter ops d (rowAfter ops d r) = rowAfter ops d r := by
  rcases rowAfter_decided_or_flagged ops d with ⟨c,hc⟩ | ⟨a,b,hab⟩
  · rw [hc, hc]
  · rw [hab, hab]
    cases r <;> simp

theorem entry_printable (e : Digest × NeedleRecord) : (entryJson e).Printable := by
  obtain ⟨ho,hz⟩ := locator_printable e.2.locator
  exact ⟨plainText_of_all (by decide),fun c hc => (digest_char hc).1,
    plainText_of_all (by decide),fun c hc => (volumeId_char hc).1,
    plainText_of_all (by decide),ho,plainText_of_all (by decide),hz,
    plainText_of_all (by decide),trivial,plainText_of_all (by decide),trivial,trivial⟩

theorem snapshot_printable (index : NeedleIndex) : (snapshotJson index).Printable := by
  have hitems (es : List (Digest × NeedleRecord)) : Json.PrintableItems (es.map entryJson) := by
    induction es with
    | nil => trivial
    | cons e es ih => exact ⟨entry_printable e,ih⟩
  exact ⟨plainText_of_all (by decide),offset_printable (by decide),
    plainText_of_all (by decide),hitems index.entries,trivial⟩

theorem readEntry_entryJson (e : Digest × NeedleRecord) : readEntry (entryJson e) = .ok e := by
  have hd : readField (entryJson e) "digest" = .ok (.str e.1.text) := rfl
  have hv : readField (entryJson e) "volume_id" = .ok (.str e.2.locator.volumeId.text) := rfl
  have ho : readField (entryJson e) "offset" = .ok (.num e.2.locator.payloadOffset) := rfl
  have hz : readField (entryJson e) "size" = .ok (.num e.2.locator.size) := rfl
  have hdel : readFlag (entryJson e) "deleted" = .ok e.2.deleted := rfl
  have hq : readFlag (entryJson e) "quarantined" = .ok e.2.quarantined := rfl
  simp only [readEntry, hd, hv, ho, hz, hdel, hq, bind, Except.bind, readDigest_text,
    readLocator_locator]
  rfl

theorem readEntries_map (es : List (Digest × NeedleRecord)) (index : NeedleIndex) :
    readEntries (es.map entryJson) index = .ok (es.foldl (fun m e => m.set e.1 e.2) index) := by
  induction es generalizing index with
  | nil => rfl
  | cons e es ih =>
    simp only [map_cons, readEntries, readEntry_entryJson, bind, Except.bind, foldl_cons]
    exact ih _

theorem loadSnapshot_snapshotText (index : NeedleIndex) :
    loadSnapshot (some (snapshotText index)) = .ok index := by
  have hload : Json.loads (snapshotText index) = some (snapshotJson index) :=
    Json.loads_dumps (some 2) (snapshot_printable index)
  have hver : (snapshotJson index).get "version".toList = some (.num indexVersion) := rfl
  have hent : readField (snapshotJson index) "entries" = .ok (.arr (index.entries.map entryJson)) :=
    rfl
  have hread : readSnapshot (snapshotText index) = .ok index := by
    have hentries := readEntries_map index.entries Dict.empty
    rw [Dict.foldl_set_entries] at hentries
    rw [readSnapshot, hload]
    simp only [snapshotJson] at hver hent ⊢
    simp only [hver, hent, bind, Except.bind, ne_eq, not_true_eq_false, if_false, hentries]
  rw [loadSnapshot, hread]

theorem get_eq_none_of_apply {index : NeedleIndex} {x : Digest}
    (h : (op.apply index).get x = none) : index.get x = none := by
  rw [get_apply] at h
  unfold LogOp.row at h
  split_ifs at h
  · cases op with
    | put y l => simp at h
    | delete y => simpa using h
    | quarantine y => simpa using h
  · exact h

def cleanEnd (log : Text) : Bool := log.isEmpty || log.getLast? = some '\n'

def LogShape (log : Text) : Prop :=
  ∃ ops tail, log = logText ops ++ tail ∧ (tail = [] ∨ ∃ op : LogOp, tail <+: op.line)

theorem logText_append (ops : List LogOp) (op : LogOp) :
    logText (ops ++ [op]) = logText ops ++ (op.line ++ ['\n']) := by
  simp [logText]

theorem logShape_logText (ops : List LogOp) : LogShape (logText ops) :=
  ⟨ops,[],by simp,Or.inl rfl⟩

theorem cleanEnd_logText (ops : List LogOp) : cleanEnd (logText ops) = true := by
  rcases eq_nil_or_concat ops with rfl | ⟨ops,op,rfl⟩
  · rfl
  · rw [concat_eq_append, logText_append, ← append_assoc]
    simp [cleanEnd]

theorem whole_of_cleanEnd {log : Text} (hs : LogShape log) (hc : cleanEnd log = true) :
    ∃ ops, log = logText ops := by
  obtain ⟨ops,tail,rfl,rfl | ⟨op,ht⟩⟩ := hs
  · exact ⟨ops,by simp⟩
  · rcases eq_nil_or_concat tail with rfl | ⟨t,c,rfl⟩
    · exact ⟨ops,by simp⟩
    · have hc' : c = '\n' := by
        rw [concat_eq_append, ← append_assoc] at hc
        simpa [cleanEnd] using hc
      exact absurd (ht.subset (by simp [hc'])) (newline_not_mem_line op)

/-- An append is replayed when its record is complete, and is not there otherwise. -/
theorem durable_appendLog (disk : Disk) (op : LogOp) (written : ℕ) (index : NeedleIndex)
    (hs : LogShape disk.log) (hc : cleanEnd disk.log = true) (hd : disk.durable = .ok index) :
    LogShape (appendLog disk op written).log ∧
      (appendLog disk op written).durable =
        .ok (if op.line.length ≤ written then op.apply index else index) := by
  obtain ⟨ops,hops⟩ := whole_of_cleanEnd hs hc
  have hload : ∃ base, loadSnapshot disk.snapshot = .ok base ∧
      ops.foldl LogOp.apply base = index := by
    cases hb : loadSnapshot disk.snapshot with
    | error e => simp [Disk.durable, hb, bind, Except.bind] at hd
    | ok base =>
      have hr := replayLog_append ops [] base
      rw [append_nil] at hr
      simp only [Disk.durable, hb, bind, Except.bind, hops, hr] at hd
      exact ⟨base,rfl,Except.ok.inj hd⟩
  obtain ⟨base,hb,rfl⟩ := hload
  by_cases hw : op.line.length+1 ≤ written
  · have htake : (op.line ++ ['\n']).take written = op.line ++ ['\n'] :=
      take_of_length_le (by simpa using hw)
    have hlog : (appendLog disk op written).log = logText (ops ++ [op]) := by
      rw [appendLog, htake, hops, logText_append]
    refine ⟨⟨ops ++ [op],[],by simp [hlog],Or.inl rfl⟩,?_⟩
    have hr := replayLog_append (ops ++ [op]) [] base
    rw [append_nil, foldl_append] at hr
    have hle : op.line.length ≤ written := by omega
    simp only [Disk.durable, hlog, bind, Except.bind, if_pos hle]
    rw [show (appendLog disk op written).snapshot = disk.snapshot from rfl, hb]
    exact hr
  · have htake : (op.line ++ ['\n']).take written = op.line.take written :=
      take_append_of_le_length (by omega)
    have hlog : (appendLog disk op written).log = logText ops ++ op.line.take written := by
      rw [appendLog, htake, hops]
    have hpre : op.line.take written <+: op.line := take_prefix _ _
    refine ⟨⟨ops,_,hlog,Or.inr ⟨op,hpre⟩⟩,?_⟩
    have hr := replayLog_append ops (op.line.take written) base
    rw [replayLog_tail hpre] at hr
    have hiff : op.line.take written = op.line ↔ op.line.length ≤ written := by
      constructor
      · intro h
        have := congrArg length h
        rw [length_take] at this
        omega
      · exact take_of_length_le
    simp only [Disk.durable, hlog, bind, Except.bind]
    rw [show (appendLog disk op written).snapshot = disk.snapshot from rfl, hb]
    simp only [hr, hiff]

theorem durable_checkpoint (disk : Disk) (index : NeedleIndex) :
    (checkpoint disk index).durable = .ok index := by
  simp only [Disk.durable, checkpoint, writeSnapshot, loadSnapshot_snapshotText, bind, Except.bind]
  rfl

theorem replayLog_ops {log : Text} (hs : LogShape log) :
    ∃ ops : List LogOp, ∀ base, replayLog log base = .ok (ops.foldl LogOp.apply base) := by
  obtain ⟨ops,tail,rfl,rfl | ⟨op,ht⟩⟩ := hs
  · refine ⟨ops,fun base => ?_⟩
    rw [replayLog_append]
    rfl
  · refine ⟨ops ++ (if tail = op.line then [op] else []),fun base => ?_⟩
    rw [replayLog_append, replayLog_tail ht, foldl_append]
    split_ifs <;> rfl

/-- The log over a snapshot of its own result: the rows are the same. -/
theorem durable_writeSnapshot (disk : Disk) (index saved : NeedleIndex) (hs : LogShape disk.log)
    (hd : disk.durable = .ok index) :
    ∃ result, (writeSnapshot disk saved).durable = .ok result ∧
      ∀ x, saved.get x = index.get x → result.get x = index.get x := by
  obtain ⟨ops,hops⟩ := replayLog_ops hs
  have hload : ∃ base, ops.foldl LogOp.apply base = index := by
    cases hb : loadSnapshot disk.snapshot with
    | error e => simp [Disk.durable, hb, bind, Except.bind] at hd
    | ok base =>
      simp only [Disk.durable, hb, bind, Except.bind, hops] at hd
      exact ⟨base,Except.ok.inj hd⟩
  obtain ⟨base,rfl⟩ := hload
  refine ⟨ops.foldl LogOp.apply saved,?_,?_⟩
  · simp only [Disk.durable, writeSnapshot, loadSnapshot_snapshotText, bind, Except.bind, hops]
  · intro x h
    rw [get_applyAll, h, get_applyAll, rowAfter_idempotent]

end BackendGauntlet.ObjectStore
